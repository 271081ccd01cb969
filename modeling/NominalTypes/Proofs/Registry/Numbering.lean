import Mathlib.Order.Bounds.Basic
import NominalTypes.Proofs.Registry.Outcomes

namespace NominalTypes

/-! Identities count the declarations, and a name belongs to the first
declaration that has it. -/

theorem getElem?_append_singleton {α : Type} (initial : List α) (last : α)
    (index : Nat) :
    (initial ++ [last])[index]? =
      if index = initial.length then some last else initial[index]? := by
  rw [← List.getElem?_toArray, ← List.push_toArray, Array.getElem?_push,
    List.size_toArray, List.getElem?_toArray]

theorem Declaration.rootless_eq_iff {first second : Declaration} :
    second.rootless = first.rootless ↔ Catalog.SameHead first second := by
  simp [rootless, Catalog.SameHead]

/-- What the call declares, if it declares anything. -/
def Change.declaration? : Change → Option Declaration
  | .declare kind name params =>
      some ⟨kind, name, params.length, params, none, []⟩
  | .setSuperclass .. => none
  | .addInterface .. => none

/-- What the calls declare, in their order. -/
def declaredBy (changes : List Change) : List Declaration :=
  changes.filterMap Change.declaration?

@[simp] theorem declaredBy_nil : declaredBy [] = [] := rfl

theorem declaredBy_cons (change : Change) (changes : List Change) :
    declaredBy (change :: changes) =
      change.declaration?.toList ++ declaredBy changes := by
  rw [declaredBy, List.filterMap_cons]
  cases change.declaration? <;> rfl

theorem declaredBy_append (first second : List Change) :
    declaredBy (first ++ second) = declaredBy first ++ declaredBy second :=
  List.filterMap_append

theorem Link.declaration?_change (link : Link) :
    link.change.declaration? = none := by
  rw [change]
  split <;> rfl

/-- The identities of the declarations with this name, when the declarations are
numbered from one on. -/
def idsNamed (declared : List Declaration) (name : String) : Set TypeId :=
  {id | ∃ index, id = index + 1 ∧
    declared[index]?.map Declaration.name = some name}

section Named

variable {declared : List Declaration} {name : String} {id : TypeId}

theorem le_length_of_mem_idsNamed (member : id ∈ idsNamed declared name) :
    id ≤ declared.length := by
  obtain ⟨index, rfl, named⟩ := member
  obtain ⟨declaration, found, _⟩ := Option.map_eq_some_iff.mp named
  exact (List.getElem?_eq_some_iff.mp found).1

theorem mem_idsNamed_append_singleton (last : Declaration) :
    id ∈ idsNamed (declared ++ [last]) name ↔
      id = declared.length + 1 ∧ last.name = name ∨
        id ∈ idsNamed declared name := by
  constructor
  · rintro ⟨index, rfl, named⟩
    rw [getElem?_append_singleton] at named
    split at named
    · rename_i atEnd
      exact .inl ⟨congrArg Nat.succ atEnd, Option.some.inj named⟩
    · exact .inr ⟨index, rfl, named⟩
  · rintro (⟨rfl, rfl⟩ | ⟨index, rfl, named⟩)
    · exact ⟨declared.length, rfl, by simp⟩
    · have inside := le_length_of_mem_idsNamed ⟨index, rfl, named⟩
      refine ⟨index, rfl, ?_⟩
      rw [getElem?_append_singleton, if_neg (Nat.ne_of_lt inside), named]

theorem idsNamed_append_of_eq {last : Declaration} (named : last.name = name) :
    idsNamed (declared ++ [last]) name =
      insert (declared.length + 1) (idsNamed declared name) := by
  ext id
  simp [mem_idsNamed_append_singleton, named]

theorem idsNamed_append_of_ne {last : Declaration} (other : last.name ≠ name) :
    idsNamed (declared ++ [last]) name = idsNamed declared name := by
  ext id
  simp [mem_idsNamed_append_singleton, other]

theorem exists_isLeast_idsNamed (nonempty : (idsNamed declared name).Nonempty) :
    ∃ id, IsLeast (idsNamed declared name) id := by
  classical
  exact ⟨Nat.find nonempty, Nat.find_spec nonempty, fun _ member =>
    Nat.find_min' nonempty member⟩

end Named

namespace Registry

theorem id?_declare (registry : Registry) (kind : Kind) (name : String)
    (params : List String) (other : String) :
    (registry.declare kind name params).2.id? other =
      if name = other ∧ registry.id? name = none then
        some (registry.catalog.size + 1)
      else registry.id? other := by
  have unknown : name ∉ registry.names ↔ registry.id? name = none := by
    rw [← Std.TreeMap.isSome_getElem?_iff_mem, Option.not_isSome_iff_eq_none]
    exact Iff.rfl
  rw [id?, Registry.declare, Std.TreeMap.getElem?_insertIfNew]
  exact if_congr (and_congr Std.compare_eq_iff_eq unknown) rfl rfl

/-- The registry has numbered the declarations from one on, whatever their
parents are by now, and finds each name where it was declared first. -/
structure Numbers (registry : Registry)
    (declared : List Declaration) : Prop where
  size : registry.catalog.size = declared.length
  heads : ∀ index,
    (registry.catalog.declaration? (index + 1)).map Declaration.rootless =
    declared[index]?
  id?_eq_some_iff : ∀ name id, registry.id? name = some id ↔
    IsLeast (idsNamed declared name) id

variable {registry after : Registry} {declared : List Declaration}

namespace Numbers

theorem id?_eq_none_iff (numbers : registry.Numbers declared) (name : String) :
    registry.id? name = none ↔ idsNamed declared name = ∅ := by
  rw [Option.eq_none_iff_forall_ne_some, ← Set.not_nonempty_iff_eq_empty]
  constructor
  · intro unknown nonempty
    obtain ⟨id, least⟩ := exists_isLeast_idsNamed nonempty
    exact unknown id ((numbers.id?_eq_some_iff name id).mpr least)
  · intro empty id known
    exact empty ((numbers.id?_eq_some_iff name id).mp known).nonempty

theorem mem_idsNamed_iff (numbers : registry.Numbers declared) {name : String}
    {id : TypeId} :
    id ∈ idsNamed declared name ↔
      registry.catalog.contains id = true ∧
        registry.catalog.name id = name := by
  cases id with
  | zero => simp [idsNamed, Catalog.contains]
  | succ index =>
      have named : index + 1 ∈ idsNamed declared name ↔
          declared[index]?.map Declaration.name = some name := by
        simp [idsNamed]
      rw [named, ← numbers.heads index, Option.map_map, Catalog.contains,
        Catalog.name]
      cases registry.catalog.declaration? (index + 1) <;>
        simp [Declaration.rootless]

theorem contains_iff (numbers : registry.Numbers declared) (id : TypeId) :
    registry.catalog.contains id = true ↔ 1 ≤ id ∧ id ≤ declared.length := by
  rw [registry.catalog.contains_iff, numbers.size]
  exact Iff.rfl

theorem ids (numbers : registry.Numbers declared) :
    registry.catalog.ids = List.range' 1 declared.length := by
  rw [Catalog.ids, numbers.size]

end Numbers

theorem numbers_empty : empty.Numbers [] := by
  refine ⟨rfl, fun index => ?_, fun name id => ?_⟩
  · rw [empty, Catalog.declaration?_empty]
    rfl
  · rw [id?, empty, Std.TreeMap.getElem?_emptyc]
    refine iff_of_false (Option.some_ne_none id).symm fun least => ?_
    obtain ⟨index, _, named⟩ := least.1
    simp at named

/-- A new declaration gets the next number, and it gets its name
if that is new. -/
theorem Numbers.declare (numbers : registry.Numbers declared) (kind : Kind)
    (name : String) (params : List String) :
    (registry.declare kind name params).2.Numbers
      (declared ++ [⟨kind, name, params.length, params, none, []⟩]) := by
  refine ⟨?_, fun index => ?_, fun other id => ?_⟩
  · rw [Registry.declare, List.length_append, List.length_singleton,
      ← numbers.size]
    exact Array.size_push _
  · rw [Registry.declare, Catalog.declaration?_add, getElem?_append_singleton,
      numbers.size]
    simp only [Nat.succ_inj]
    split
    · rfl
    · exact numbers.heads index
  · rw [id?_declare, numbers.size]
    by_cases same : name = other
    · subst same
      rw [idsNamed_append_of_eq rfl]
      cases known : registry.id? name with
      | none =>
          rw [(numbers.id?_eq_none_iff name).mp known, if_pos ⟨rfl, rfl⟩,
            insert_empty_eq, isLeast_singleton.isLeast_iff_eq, Option.some_inj]
      | some first =>
          -- The new number is above all the others with the name, so the
          -- least of them stays.
          have least := (numbers.id?_eq_some_iff name first).mp known
          have inside :=
            (le_length_of_mem_idsNamed least.1).trans (Nat.le_succ _)
          have still := least.insert (declared.length + 1)
          rw [min_eq_right inside] at still
          rw [if_neg (by simp), still.isLeast_iff_eq, Option.some_inj]
    · rw [if_neg (fun fresh => same fresh.1), idsNamed_append_of_ne same]
      exact numbers.id?_eq_some_iff other id

theorem Numbers.congr (numbers : registry.Numbers declared)
    (heads : registry.catalog.SameHeads after.catalog)
    (size : after.catalog.size = registry.catalog.size)
    (names : after.names = registry.names) : after.Numbers declared where
  size := size.trans numbers.size
  heads index := (heads (index + 1)).trans (numbers.heads index)
  id?_eq_some_iff name id := by
    rw [id?, names]
    exact numbers.id?_eq_some_iff name id

/-- A link concerns only parents, so it has no part in the numbering. -/
theorem Numbers.apply (numbers : registry.Numbers declared) (change : Change) :
    (registry.apply change).Numbers
      (declared ++ change.declaration?.toList) := by
  rcases change.eq_declare_or_link with ⟨kind, name, params, rfl⟩ | ⟨link, rfl⟩
  · exact numbers.declare kind name params
  · rw [apply_change, link.declaration?_change, Option.toList_none,
      List.append_nil]
    cases outcome : registry.link link with
    | error _ => exact numbers
    | ok after =>
        exact numbers.congr (sameHeads_link outcome) (differs_link outcome).size
          (names_link outcome)

theorem Numbers.foldl (numbers : registry.Numbers declared)
    (changes : List Change) :
    (changes.foldl Registry.apply registry).Numbers
      (declared ++ declaredBy changes) := by
  induction changes generalizing registry declared with
  | nil => simpa using numbers
  | cons change rest ih =>
      rw [declaredBy_cons, ← List.append_assoc]
      exact ih (numbers.apply change)

/-- The numbers stay when there are more declarations. -/
theorem Numbers.extends {more : List Declaration}
    (numbers : registry.Numbers declared)
    (later : after.Numbers (declared ++ more)) :
    registry.catalog.Extends after.catalog := by
  intro id declaration found
  have bounds :=
    (numbers.contains_iff id).mp (Catalog.contains_of_declaration? found)
  obtain ⟨index, rfl⟩ := Nat.exists_eq_add_of_le' bounds.1
  have heads := (later.heads index).trans (List.getElem?_append_left bounds.2)
  rw [← numbers.heads index, found, Option.map_some,
    Option.map_eq_some_iff] at heads
  obtain ⟨current, still, same⟩ := heads
  exact ⟨current, still, Declaration.rootless_eq_iff.mp same⟩

/-- Whatever the calls are, the registry has numbered what they declare. -/
theorem numbers_run (changes : List Change) :
    (run changes).Numbers (declaredBy changes) :=
  numbers_empty.foldl changes

/-! Names lead to the first declarations that have them. -/

structure Indexed (registry : Registry) : Prop where
  declared : ∀ name id, registry.id? name = some id →
    registry.catalog.contains id = true
  name : ∀ name id, registry.id? name = some id →
    registry.catalog.name id = name
  first : ∀ id, registry.catalog.contains id = true →
    ∃ least ≤ id, registry.id? (registry.catalog.name id) = some least

/-- Whatever calls a registry has grown by, names lead to declared types of
these names, and to the first of them. -/
theorem run_indexed (changes : List Change) : (run changes).Indexed := by
  have numbers := numbers_run changes
  refine ⟨fun name id found => ?_, fun name id found => ?_,
    fun id declared => ?_⟩
  · exact (numbers.mem_idsNamed_iff.mp
      ((numbers.id?_eq_some_iff name id).mp found).1).1
  · exact (numbers.mem_idsNamed_iff.mp
      ((numbers.id?_eq_some_iff name id).mp found).1).2
  · have member := numbers.mem_idsNamed_iff.mpr ⟨declared, rfl⟩
    obtain ⟨first, least⟩ := exists_isLeast_idsNamed ⟨id, member⟩
    exact ⟨first, least.2 member, (numbers.id?_eq_some_iff _ first).mpr least⟩

end Registry

end NominalTypes
