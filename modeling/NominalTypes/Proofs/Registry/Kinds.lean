import NominalTypes.Proofs.Loading.Reachability
import NominalTypes.Proofs.Loading.Rendering
import NominalTypes.Proofs.Registry.Outcomes

namespace NominalTypes

/-! The kinds of types and of their parents.

A superclass has to be a class.  Nothing else is asked of kinds when a parent is
linked, so only classes have superclasses, and only interfaces are interfaces,
as long as the links see to it themselves. -/

/-- Only classes have superclasses, which are classes, and all other parents
are interfaces. -/
structure Catalog.Disciplined (catalog : Catalog) : Prop where
  owner : ∀ id parent, catalog.superclass id = some parent →
    catalog.kind id = .classType
  superclass : ∀ id parent, catalog.superclass id = some parent →
    catalog.kind parent.id = .classType
  interfaces : ∀ id, ∀ parent ∈ catalog.interfaces id, catalog.kind parent.id =
    .interfaceType

/-- The declared parents that are classes. -/
def Catalog.classParents (catalog : Catalog) (id : TypeId) : List Parent :=
  (catalog.parents id).filter (catalog.kind ·.id = .classType)

/-- The link goes from a class to a class, or to an interface. -/
def Link.RespectsKinds (catalog : Catalog) (link : Link) : Prop :=
  if link.asSuperclass then
    catalog.kind link.owner = .classType ∧
      catalog.kind link.parent.id = .classType
  else catalog.kind link.parent.id = .interfaceType

/-- The link has been made. -/
def Catalog.Has (catalog : Catalog) (link : Link) : Prop :=
  if link.asSuperclass then catalog.superclass link.owner = some link.parent
  else link.parent ∈ catalog.interfaces link.owner

namespace Catalog

variable {catalog : Catalog} {link : Link}

theorem Has.mem_parents (made : catalog.Has link) :
    link.parent ∈ catalog.parents link.owner := by
  rw [Has] at made
  split at made
  · exact List.mem_append_left _ (Option.mem_toList.mpr made)
  · exact List.mem_append_right _ made

theorem disciplined_iff_links :
    catalog.Disciplined ↔ ∀ link, catalog.Has link →
      link.RespectsKinds catalog := by
  constructor
  · rintro ⟨owner, superclass, interfaces⟩ ⟨id, asSuperclass, parent⟩ made
    cases asSuperclass with
    | true => exact ⟨owner id parent made, superclass id parent made⟩
    | false => exact interfaces id parent made
  · intro respects
    refine ⟨fun id parent found => ?_, fun id parent found => ?_,
      fun id parent member => ?_⟩
    · exact (respects ⟨id, true, parent⟩ found).1
    · exact (respects ⟨id, true, parent⟩ found).2
    · exact respects ⟨id, false, parent⟩ member

namespace Disciplined

variable (disciplined : catalog.Disciplined)

include disciplined

/-- The only class that can stand above a type directly is its superclass. -/
theorem classParents_eq (id : TypeId) :
    catalog.classParents id = (catalog.superclass id).toList := by
  have interfaces :
      (catalog.interfaces id).filter (catalog.kind ·.id = .classType) = [] := by
    rw [List.filter_eq_nil_iff]
    intro parent member
    simp [disciplined.interfaces id parent member]
  rw [classParents, parents, List.filter_append, interfaces, List.append_nil,
    List.filter_eq_self]
  intro parent member
  simpa using disciplined.superclass id parent (Option.mem_toList.mp member)

theorem length_classParents_le (id : TypeId) :
    (catalog.classParents id).length ≤ 1 := by
  rw [disciplined.classParents_eq id]
  cases catalog.superclass id <;> simp

theorem classParents_eq_nil {id : TypeId}
    (isInterface : catalog.kind id = .interfaceType) :
    catalog.classParents id = [] := by
  rw [disciplined.classParents_eq id]
  cases found : catalog.superclass id with
  | none => rfl
  | some parent =>
      exact nomatch isInterface.symm.trans (disciplined.owner id parent found)

end Disciplined

/-! What a call does to the kinds. -/

theorem disciplined_empty (unknownName : TypeId → String) :
    (empty unknownName).Disciplined := by
  refine ⟨?_, ?_, ?_⟩ <;> simp [superclass, interfaces]

/-- A new declaration makes no links, and it is not part of one. -/
theorem Sound.disciplined_add_iff (sound : catalog.Sound)
    {declaration : Declaration} (noSuperclass : declaration.superclass = none)
    (noInterfaces : declaration.interfaces = []) :
    (catalog.add declaration).Disciplined ↔ catalog.Disciplined := by
  have extension := extends_add catalog declaration
  rw [disciplined_iff_links, disciplined_iff_links]
  refine forall_congr' fun link => ?_
  have sameLinks : (catalog.add declaration).Has link ↔ catalog.Has link := by
    rw [Has, Has, superclass_add catalog noSuperclass,
      interfaces_add catalog noInterfaces]
  rw [sameLinks]
  refine imp_congr_right fun made => ?_
  have member := made.mem_parents
  have owner :=
    extension.kind (contains_of_hasParent ⟨link.parent, member, rfl⟩)
  have target := extension.kind (sound.args_fit member).1
  rw [Link.RespectsKinds, Link.RespectsKinds, owner, target]

end Catalog

theorem Link.change_ne_declare (link : Link) (kind : Kind) (name : String)
    (params : List String) : link.change ≠ .declare kind name params := by
  rw [change]
  split <;> simp

theorem Link.change_injective : Function.Injective Link.change := by
  rintro ⟨owner, asSuperclass, parent⟩ ⟨other, otherwise, candidate⟩ same
  cases asSuperclass <;> cases otherwise <;> simp_all [change]

namespace Registry

variable {registry after : Registry} {link : Link}

theorem interfaces_link (linked : registry.link link = .ok after)
    (id : TypeId) :
    after.catalog.interfaces id =
      if id = link.owner ∧ link.asSuperclass = false then
        registry.catalog.interfaces id ++ [link.parent]
      else registry.catalog.interfaces id := by
  obtain ⟨_, ⟨declaration, declared, _⟩, _⟩ := differs_link linked
  rw [Catalog.interfaces, Catalog.interfaces, declaration?_link linked]
  by_cases own : id = link.owner
  · subst own
    cases kind : link.asSuperclass <;> simp [declared, Link.join, kind]
  · simp [own]

theorem has_link_iff (linked : registry.link link = .ok after) (other : Link) :
    after.catalog.Has other ↔ other = link ∨ registry.catalog.Has other := by
  have free := (link_eq_ok_iff.mp linked).2.1
  rw [Catalog.Has, Catalog.Has, superclass_link linked, interfaces_link linked]
  obtain ⟨id, asSuperclass, parent⟩ := other
  obtain ⟨owner, way, candidate⟩ := link
  by_cases own : id = owner
  · subst own
    cases asSuperclass with
    | true =>
        cases way with
        | true => simp [(free rfl).2, eq_comm]
        | false => simp
    | false => cases way <;> simp [or_comm]
  · simp [own]

theorem disciplined_link_iff (linked : registry.link link = .ok after) :
    after.catalog.Disciplined ↔
      link.RespectsKinds registry.catalog ∧ registry.catalog.Disciplined := by
  have kinds := (sameHeads_link linked).kind
  simp only [Catalog.disciplined_iff_links, has_link_iff linked,
    forall_eq_or_imp, Link.RespectsKinds, kinds]

theorem disciplined_apply_iff (sound : registry.catalog.Sound)
    (change : Change) :
    (registry.apply change).catalog.Disciplined ↔
      (∀ link, change = link.change →
        (∃ after, registry.link link = .ok after) →
        link.RespectsKinds registry.catalog) ∧
          registry.catalog.Disciplined := by
  rcases change.eq_declare_or_link with ⟨kind, name, params, rfl⟩ | ⟨link, rfl⟩
  · refine (sound.disciplined_add_iff rfl rfl).trans
      (iff_and_self.mpr fun _ link same => ?_)
    exact absurd same (link.change_ne_declare kind name params).symm
  · simp only [Link.change_injective.eq_iff, forall_eq', apply_change]
    cases outcome : registry.link link with
    | error error => simp [Except.toOption]
    | ok after => simpa [Except.toOption] using disciplined_link_iff outcome

/-- The kinds are kept apart after some calls exactly if every link among them
keeps them apart that is accepted. -/
theorem disciplined_foldl_iff (sound : registry.catalog.Sound)
    (changes : List Change) :
    (changes.foldl apply registry).catalog.Disciplined ↔
      registry.catalog.Disciplined ∧ ∀ before link later,
        changes = before ++ link.change :: later →
        (∃ after, (before.foldl apply registry).link link = .ok after) →
          link.RespectsKinds (before.foldl apply registry).catalog := by
  induction changes generalizing registry with
  | nil => simp
  | cons change rest ih =>
      rw [List.foldl_cons, ih (sound_apply sound change),
        disciplined_apply_iff sound]
      constructor
      · rintro ⟨⟨first, disciplined⟩, others⟩
        refine ⟨disciplined, fun before link later split => ?_⟩
        cases before with
        | nil => exact first link (List.cons.inj split).1
        | cons head before =>
            obtain ⟨rfl, tail⟩ := List.cons.inj split
            exact others before link later tail
      · rintro ⟨disciplined, all⟩
        refine ⟨⟨fun link same => ?_, disciplined⟩,
          fun before link later split => ?_⟩
        · exact all [] link rest (congrArg (· :: rest) same)
        · exact all (change :: before) link later (congrArg (change :: ·) split)

/-- What an interface is written to extend are interfaces of it. -/
theorem Holds.isClass_of_superclass {entries : List Entry}
    (holds : registry.Holds entries) {id : TypeId} {parent : Parent}
    (found : registry.catalog.superclass id = some parent) :
    registry.catalog.kind id = .classType := by
  have member : parent ∈ registry.catalog.parents id :=
    List.mem_append_left _ (Option.mem_toList.mpr found)
  obtain ⟨entry, stands⟩ :=
    holds.contains_iff.mp (Catalog.contains_of_hasParent ⟨parent, member, rfl⟩)
  obtain ⟨declaration, declared, described⟩ := holds.declaration id entry stands
  rw [Catalog.superclass, declared] at found
  rw [holds.kind stands]
  cases kind : entry.kind with
  | classType => rfl
  | interfaceType =>
      have superclass := described.superclass
      rw [show declaration.superclass = some parent from found,
        Entry.superclassText?, kind] at superclass
      cases superclass

/-- Whatever the calls are, every superclass is a declared class.  But nothing
keeps an interface from having a superclass, or a class from standing among the
interfaces of a type: the kinds are kept apart exactly if all the links that
were accepted keep them apart, and then a class has at most one class directly
above it and an interface has none.  In a catalog that was written down only
classes have superclasses, so there it takes a class among the interfaces to
mix the kinds. -/
theorem disciplined_iff (changes : List Change) (entries : List Entry) :
    (∀ id parent, (run changes).catalog.superclass id = some parent →
      (run changes).catalog.contains parent.id = true ∧
        (run changes).catalog.kind parent.id = .classType) ∧
    ((run changes).catalog.Disciplined ↔
      ∀ before link later, changes = before ++ link.change :: later →
        (∃ after, (run before).link link = .ok after) →
          link.RespectsKinds (run before).catalog) ∧
    ((run changes).catalog.Disciplined → ∀ id,
      ((run changes).catalog.classParents id).length ≤ 1 ∧
        ((run changes).catalog.kind id = .interfaceType →
          (run changes).catalog.classParents id = [])) ∧
    ∀ registry, ofEntries entries = .ok registry →
      (registry.catalog.Disciplined ↔
        ∀ id, ∀ parent ∈ registry.catalog.interfaces id,
          registry.catalog.kind parent.id = .interfaceType) := by
  have start := Catalog.sound_empty empty.catalog.unknownName
  refine ⟨?_, ?_, ?_, fun registry loaded =>
    ⟨(·.interfaces), fun interfaces => ?_⟩⟩
  · have sound : (run changes).catalog.Sound :=
      run_induction (motive := fun registry => registry.catalog.Sound) start
        fun _ change _ sound => sound_apply sound change
    exact sound.superclass_class
  · exact (disciplined_foldl_iff start changes).trans
      (and_iff_right (Catalog.disciplined_empty empty.catalog.unknownName))
  · exact fun disciplined id =>
      ⟨disciplined.length_classParents_le id, disciplined.classParents_eq_nil⟩
  · have holds := holds_of_ofEntries loaded
    have sound := (reachable_of_ofEntries loaded).sound
    exact ⟨fun _ _ => holds.isClass_of_superclass,
      fun id parent found =>
        (sound.superclass_class id parent found).2, interfaces⟩

/-- An interface gets a superclass, and a class is taken for an interface.  A
written class can have two classes above it. -/
theorem run_mixes_kinds :
    let catalog :=
      (run [.declare .classType "Base" [], .declare .interfaceType "Shape" [],
        .declare .classType "Circle" [], .setSuperclass 2 ⟨1, []⟩,
        .addInterface 3 ⟨1, []⟩]).catalog
    (∃ parent, catalog.superclass 2 = some parent ∧
        catalog.kind 2 = .interfaceType) ∧
      (∃ parent ∈ catalog.interfaces 3, catalog.kind parent.id = .classType) ∧
      ∃ registry, ofEntries [⟨"Base", .classType, [], [], []⟩,
          ⟨"Shape", .classType, [], [], []⟩,
          ⟨"Circle", .classType, [], ["Base"], ["Shape"]⟩] = .ok registry ∧
        (registry.catalog.classParents 3).length = 2 := by
  refine ⟨⟨⟨1, []⟩, rfl, rfl⟩, ⟨⟨1, []⟩, List.mem_singleton.mpr rfl, rfl⟩, ?_⟩
  let entries : List Entry :=
    [⟨"Base", .classType, [], [], []⟩, ⟨"Shape", .classType, [], [], []⟩,
      ⟨"Circle", .classType, [], ["Base"], ["Shape"]⟩]
  have accepted : (ofEntries entries).toOption.any (fun registry =>
      (registry.catalog.classParents 3).length = 2) = true := by
    decide +kernel
  cases loaded : ofEntries entries with
  | error error =>
      rw [loaded] at accepted
      cases accepted
  | ok registry =>
      rw [loaded] at accepted
      exact ⟨registry, rfl, of_decide_eq_true accepted⟩

end Registry

end NominalTypes
