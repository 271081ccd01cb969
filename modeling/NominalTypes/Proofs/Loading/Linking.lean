import NominalTypes.Proofs.Loading.Writing

namespace NominalTypes

/-! The second pass over a written catalog, which gives each declaration its
parents.  It does what linking the parents of the finished declarations one
after the other does, so those are what the pass leads to. -/

def Entry.superclassText? (entry : Entry) : Option String :=
  match entry.kind with
  | .classType => entry.extending.head?
  | .interfaceType => none

def Entry.interfaceTexts (entry : Entry) : List String :=
  match entry.kind with
  | .classType => entry.implementing
  | .interfaceType => entry.extending

/-- The declaration says what the entry says. -/
structure Entry.Describes (entries : List Entry) (entry : Entry)
    (declaration : Declaration) : Prop where
  head : declaration.rootless = entry.head
  superclass : List.Forall₂ (Parent.WrittenAs entries entry.params)
    entry.superclassText?.toList declaration.superclass.toList
  interfaces : List.Forall₂ (Parent.WrittenAs entries entry.params)
    entry.interfaceTexts declaration.interfaces

def Declaration.links (id : TypeId) (declaration : Declaration) : List Link :=
  declaration.superclass.toList.map (Link.mk id true) ++
    declaration.interfaces.map (Link.mk id false)

/-- The parents of types that are declared from `id` on. -/
def linksFrom (id : TypeId) : List Declaration → List Link
  | [] => []
  | declaration :: rest => declaration.links id ++ linksFrom (id + 1) rest

namespace Registry

variable {registry middle after : Registry} {entries : List Entry}

theorem linkAll_nil_eq_ok_iff :
    registry.linkAll [] = .ok after ↔ registry = after := by
  simp only [linkAll, List.foldlM_nil, pure, Except.pure, Except.ok.injEq]

theorem linkAll_append_eq_ok_iff {first second : List Link} :
    registry.linkAll (first ++ second) = .ok after ↔
      ∃ middle, registry.linkAll first = .ok middle ∧
        middle.linkAll second = .ok after := by
  rw [linkAll, List.foldlM_append, bind_eq_ok_iff]
  rfl

theorem linkAll_cons_eq_ok_iff {first : Link} {rest : List Link} :
    registry.linkAll (first :: rest) = .ok after ↔
      ∃ middle, registry.link first = .ok middle ∧
        middle.linkAll rest = .ok after := by
  rw [linkAll, List.foldlM_cons, bind_eq_ok_iff]
  rfl

theorem linkAll_singleton (link : Link) :
    registry.linkAll [link] = registry.link link := by
  rw [linkAll, List.foldlM_cons]
  exact bind_pure (registry.link link)

theorem Declares.link {link : Link} (declares : registry.Declares entries)
    (linked : registry.link link = .ok after) : after.Declares entries := by
  refine ⟨declares.distinct, fun id => ?_, fun name id => ?_⟩
  · rw [sameHeads_link linked]
    exact declares.heads id
  · rw [id?, names_link linked]
    exact declares.id?_eq_some_iff name id

theorem Declares.linkAll {links : List Link}
    (declares : registry.Declares entries)
    (linked : registry.linkAll links = .ok after) : after.Declares entries := by
  induction links generalizing registry with
  | nil =>
      obtain rfl := Except.ok.inj linked
      exact declares
  | cons first rest ih =>
      obtain ⟨middle, linked, later⟩ := linkAll_cons_eq_ok_iff.mp linked
      exact ih (declares.link linked) later

/-- The registry with the superclass that a text stands for, if
there is a text. -/
def linkSuperclass? (registry : Registry) (id : TypeId) (params : List String) :
    Option String → Except ParentError Registry
  | none => .ok registry
  | some text => registry.linkSuperclass id params text

theorem linkEntry_eq_bind (registry : Registry) (id : TypeId) (entry : Entry) :
    registry.linkEntry id entry =
      registry.linkSuperclass? id entry.params entry.superclassText? >>=
        fun extended =>
          extended.linkInterfaces id entry.params entry.interfaceTexts := by
  obtain ⟨name, kind, params, extending, implementing⟩ := entry
  cases kind with
  | interfaceType => rfl
  | classType => cases extending <;> rfl

section Reading

variable (declares : registry.Declares entries) {params : List String}
  (distinct : params.Nodup)

include declares distinct

theorem linkSuperclass?_eq_ok_iff {id : TypeId} {text? : Option String} :
    registry.linkSuperclass? id params text? = .ok after ↔
      ∃ superclass : Option Parent,
        List.Forall₂ (Parent.WrittenAs entries params) text?.toList
          superclass.toList ∧
        registry.linkAll (superclass.toList.map (Link.mk id true)) =
          .ok after := by
  cases text? with
  | none =>
      simp only [linkSuperclass?, Except.ok.injEq, Option.toList_none,
        List.forall₂_nil_left_iff]
      constructor
      · rintro rfl
        exact ⟨none, rfl, rfl⟩
      · rintro ⟨superclass, none, linked⟩
        rw [none] at linked
        exact linkAll_nil_eq_ok_iff.mp linked
  | some text =>
      simp only [linkSuperclass?, linkSuperclass, bind_eq_ok_iff,
        parentOf_eq_ok_iff declares distinct, mapError_eq_ok_iff]
      constructor
      · rintro ⟨parent, written, linked⟩
        exact ⟨some parent, .cons written .nil,
          (linkAll_singleton _).trans linked⟩
      · rintro ⟨_ | parent, each, linked⟩
        · cases each
        · exact ⟨parent, (List.forall₂_cons.mp each).1,
            (linkAll_singleton _).symm.trans linked⟩

theorem linkInterfaces_eq_ok_iff {id : TypeId} {texts : List String} :
    registry.linkInterfaces id params texts = .ok after ↔
      ∃ interfaces,
        List.Forall₂ (Parent.WrittenAs entries params) texts interfaces ∧
        registry.linkAll (interfaces.map (Link.mk id false)) = .ok after := by
  induction texts generalizing registry with
  | nil =>
      simp only [linkInterfaces, List.forall₂_nil_left_iff, exists_eq_left,
        List.map_nil, linkAll_nil_eq_ok_iff, Except.ok.injEq]
  | cons text rest ih =>
      simp only [linkInterfaces, bind_eq_ok_iff, mapError_eq_ok_iff,
        parentOf_eq_ok_iff declares distinct]
      constructor
      · rintro ⟨parent, written, middle, added, later⟩
        have linked : registry.link ⟨id, false, parent⟩ = .ok middle := added
        obtain ⟨others, each, rest⟩ := (ih (declares.link linked)).mp later
        exact ⟨parent :: others, .cons written each,
          linkAll_cons_eq_ok_iff.mpr ⟨middle, linked, rest⟩⟩
      · rintro ⟨_, _ | ⟨written, each⟩, linked⟩
        obtain ⟨middle, linked, rest⟩ := linkAll_cons_eq_ok_iff.mp linked
        exact ⟨_, written, middle, linked,
          (ih (declares.link linked)).mpr ⟨_, each, rest⟩⟩

end Reading

variable (declares : registry.Declares entries)

include declares

theorem linkEntry_eq_ok_iff {entry : Entry} (plain : entry.Plain)
    {id : TypeId} :
    registry.linkEntry id entry = .ok after ↔
      ∃ declaration, entry.Describes entries declaration ∧
        registry.linkAll (declaration.links id) = .ok after := by
  rw [linkEntry_eq_bind, bind_eq_ok_iff]
  simp only [linkSuperclass?_eq_ok_iff declares plain.distinctParams,
    Declaration.links, linkAll_append_eq_ok_iff]
  constructor
  · rintro ⟨middle, ⟨superclass, writtenSuperclass, linked⟩, later⟩
    obtain ⟨interfaces, written, linkedLater⟩ :=
      (linkInterfaces_eq_ok_iff (declares.linkAll linked)
        plain.distinctParams).mp later
    exact ⟨{ entry.head with superclass, interfaces },
      ⟨rfl, writtenSuperclass, written⟩, middle, linked, linkedLater⟩
  · rintro ⟨declaration, described, middle, linked, later⟩
    refine ⟨middle, ⟨declaration.superclass, described.superclass, linked⟩, ?_⟩
    exact (linkInterfaces_eq_ok_iff (declares.linkAll linked)
      plain.distinctParams).mpr
      ⟨declaration.interfaces, described.interfaces, later⟩

theorem linkEntries_eq_ok_iff {rest : List Entry}
    (plain : ∀ entry ∈ rest, entry.Plain) {id : TypeId} :
    registry.linkEntries id rest = .ok after ↔
      ∃ declarations, List.Forall₂ (Entry.Describes entries) rest declarations ∧
        registry.linkAll (linksFrom id declarations) = .ok after := by
  induction rest generalizing registry id with
  | nil =>
      simp only [linkEntries, List.forall₂_nil_left_iff,
        exists_eq_left, linksFrom, linkAll_nil_eq_ok_iff, Except.ok.injEq]
  | cons entry rest ih =>
      obtain ⟨plainEntry, plainRest⟩ := List.forall_mem_cons.mp plain
      simp only [linkEntries, bind_eq_ok_iff, mapError_eq_ok_iff,
        linkEntry_eq_ok_iff declares plainEntry]
      constructor
      · rintro ⟨middle, ⟨declaration, described, linked⟩, later⟩
        obtain ⟨others, each, linkedLater⟩ :=
          (ih (declares.linkAll linked) plainRest).mp later
        exact ⟨declaration :: others, .cons described each,
          linkAll_append_eq_ok_iff.mpr ⟨middle, linked, linkedLater⟩⟩
      · rintro ⟨_, _ | ⟨described, each⟩, linked⟩
        obtain ⟨middle, linked, later⟩ := linkAll_append_eq_ok_iff.mp linked
        exact ⟨middle, ⟨_, described, linked⟩,
          (ih (declares.linkAll linked) plainRest).mpr ⟨_, each, later⟩⟩

omit declares

/-- Links of one type change its declaration only, one after the other. -/
theorem declaration?_linkAll_owner {id : TypeId} {links : List Link}
    (own : ∀ link ∈ links, link.owner = id)
    (linked : registry.linkAll links = .ok after) (other : TypeId) :
    after.catalog.declaration? other =
      if other = id then
        (registry.catalog.declaration? other).map fun declaration =>
          links.foldl (fun declaration link => link.join declaration) declaration
      else registry.catalog.declaration? other := by
  induction links generalizing registry with
  | nil =>
      obtain rfl := linkAll_nil_eq_ok_iff.mp linked
      simp
  | cons first rest ih =>
      obtain ⟨ownFirst, ownRest⟩ := List.forall_mem_cons.mp own
      obtain ⟨middle, linkedFirst, later⟩ := linkAll_cons_eq_ok_iff.mp linked
      rw [ih ownRest later, declaration?_link linkedFirst, ownFirst]
      split
      · rw [Option.map_map]
        rfl
      · rfl

end Registry

theorem Declaration.owner_of_mem_links {declaration : Declaration}
    {id : TypeId} : ∀ link ∈ declaration.links id, link.owner = id := by
  intro link member
  rcases List.mem_append.mp member with member | member <;>
    obtain ⟨_, _, rfl⟩ := List.mem_map.mp member <;> rfl

theorem Declaration.foldl_join_links (declaration : Declaration) (id : TypeId) :
    (declaration.links id).foldl (fun joined link =>
        link.join joined) declaration.rootless =
      declaration := by
  have appended : ∀ (interfaces : List Parent) (start : Declaration),
      (interfaces.map (Link.mk id false)).foldl (fun joined link =>
          link.join joined) start =
        { start with interfaces := start.interfaces ++ interfaces } := by
    intro interfaces
    induction interfaces with
    | nil => simp
    | cons parent rest ih =>
        intro start
        rw [List.map_cons, List.foldl_cons, ih]
        simp [Link.join]
  obtain ⟨kind, name, arity, params, superclass, interfaces⟩ := declaration
  rw [links, List.foldl_append, appended]
  cases superclass <;> simp [rootless, Link.join]

namespace Registry

variable {registry after : Registry}

/-- Linking the parents of declarations to the same declarations without parents
makes them complete. -/
theorem declaration?_linkAll {declarations : List Declaration} {id : TypeId}
    (bare : ∀ index declaration, declarations[index]? = some declaration →
      registry.catalog.declaration? (id + index) = some declaration.rootless)
    (linked : registry.linkAll (linksFrom id declarations) = .ok after) :
    (∀ index declaration, declarations[index]? = some declaration →
      after.catalog.declaration? (id + index) = some declaration) ∧
    ∀ other < id, after.catalog.declaration? other =
      registry.catalog.declaration? other := by
  induction declarations generalizing registry id with
  | nil =>
      obtain rfl := linkAll_nil_eq_ok_iff.mp linked
      exact ⟨nofun, fun _ _ => rfl⟩
  | cons declaration rest ih =>
      obtain ⟨middle, linkedFirst, later⟩ := linkAll_append_eq_ok_iff.mp linked
      have between :=
        declaration?_linkAll_owner Declaration.owner_of_mem_links linkedFirst
      have bareRest : ∀ index other, rest[index]? = some other →
          middle.catalog.declaration? (id + 1 + index) =
              some other.rootless := by
        intro index other found
        have past : id + 1 + index ≠ id :=
          Nat.ne_of_gt (Nat.lt_add_right index (Nat.lt_succ_self id))
        rw [between, if_neg past, Nat.add_assoc, Nat.add_comm 1]
        exact bare (index + 1) other found
      obtain ⟨complete, unchanged⟩ := ih bareRest later
      refine ⟨fun index other found => ?_, fun other before => ?_⟩
      · cases index with
        | zero =>
            obtain rfl := Option.some.inj found
            rw [Nat.add_zero, unchanged id (Nat.lt_succ_self id),
              between, if_pos rfl, ← Nat.add_zero id, bare 0 declaration rfl,
              Option.map_some,
              Declaration.foldl_join_links]
        | succ index =>
            rw [← complete index other found, Nat.add_assoc, Nat.add_comm 1]
      · rw [unchanged other (Nat.lt_succ_of_lt before), between,
          if_neg (Nat.ne_of_lt before)]

end Registry

end NominalTypes
