import NominalTypes.Catalog.Loading
import NominalTypes.Proofs.Registry.Numbering

namespace NominalTypes

/-! The first pass over a written catalog, which declares its types without
their parents. -/

theorem firstRepeated?_eq_none_iff (seen names : List String) :
    firstRepeated? seen names = none ↔
      names.Nodup ∧ ∀ name ∈ names, name ∉ seen := by
  induction names generalizing seen with
  | nil => simp [firstRepeated?]
  | cons name rest ih =>
      rw [firstRepeated?]
      by_cases repeated : name ∈ seen
      · simp [repeated]
      · have later : (∀ other ∈ rest, other ∉ name :: seen) ↔
            name ∉ rest ∧ ∀ other ∈ rest, other ∉ seen := by
          simp only [List.mem_cons, not_or]
          constructor
          · intro fresh
            exact ⟨fun member => (fresh name member).1 rfl, fun other member =>
              (fresh other member).2⟩
          · rintro ⟨apart, fresh⟩ other member
            exact ⟨fun same => apart (same ▸ member), fresh other member⟩
        simp only [List.contains_iff_mem, repeated, if_false, ih, later,
          List.nodup_cons, List.forall_mem_cons, not_false_eq_true, true_and]
        exact and_left_comm.trans and_assoc.symm

/-- What an entry has to satisfy whatever else is declared. -/
structure Entry.Plain (entry : Entry) : Prop where
  fewParams : entry.params.length ≤ maxParams
  distinctParams : entry.params.Nodup
  implementing : entry.kind = .interfaceType → entry.implementing = []
  extending : entry.kind = .classType → entry.extending.length ≤ 1

theorem refusing_eq_ok_iff {ε α : Type} {condition : Prop}
    [Decidable condition] {error : ε} {rest : Except ε α} {result : α} :
    (if condition then .error error else rest) = .ok result ↔
      ¬ condition ∧ rest = .ok result := by
  split <;> simp_all

theorem Entry.check_eq_ok_iff (entry : Entry) :
    entry.check = .ok () ↔ entry.Plain := by
  have distinct := firstRepeated?_eq_none_iff [] entry.params
  simp only [List.not_mem_nil, not_false_eq_true, implies_true,
    and_true] at distinct
  have checks : entry.check = .ok () ↔ entry.params.length ≤ maxParams ∧
      firstRepeated? [] entry.params = none ∧
      (entry.kind = .interfaceType → entry.implementing = []) ∧
      (entry.kind = .classType → entry.extending.length ≤ 1) := by
    simp only [check, bind, Except.bind, throw, throwThe, MonadExceptOf.throw,
      pure, Except.pure, refusing_eq_ok_iff, not_lt]
    cases firstRepeated? [] entry.params with
    | none =>
        simp only [refusing_eq_ok_iff, not_and, not_not, not_lt,
          true_and, and_true]
    | some param => simp only [reduceCtorEq, false_and]
  rw [checks, distinct]
  constructor
  · rintro ⟨few, distinct, implementing, extending⟩
    exact ⟨few, distinct, implementing, extending⟩
  · rintro ⟨few, distinct, implementing, extending⟩
    exact ⟨few, distinct, implementing, extending⟩

/-- The declaration of an entry, without its parents. -/
def Entry.head (entry : Entry) : Declaration :=
  ⟨entry.kind, entry.name, entry.params.length, entry.params, none, []⟩

@[simp] theorem Entry.rootless_head (entry : Entry) :
    entry.head.rootless = entry.head := rfl

/-- The entry that stands for an identity: the first one for one, and so on. -/
def entryAt? (entries : List Entry) : TypeId → Option Entry
  | 0 => none
  | index + 1 => entries[index]?

@[simp] theorem entryAt?_succ (entries : List Entry) (index : Nat) :
    entryAt? entries (index + 1) = entries[index]? := rfl

theorem mem_of_entryAt? {entries : List Entry} {id : TypeId} {entry : Entry}
    (found : entryAt? entries id = some entry) : entry ∈ entries := by
  cases id with
  | zero => cases found
  | succ index => exact List.mem_of_getElem? found

theorem exists_entryAt?_of_mem {entries : List Entry} {entry : Entry}
    (member : entry ∈ entries) : ∃ id, entryAt? entries id = some entry := by
  obtain ⟨index, found⟩ := List.getElem?_of_mem member
  exact ⟨index + 1, found⟩

theorem exists_entryAt?_iff {entries : List Entry} {id : TypeId} :
    (∃ entry, entryAt? entries id = some entry) ↔
      0 < id ∧ id ≤ entries.length := by
  cases id with
  | zero => exact iff_of_false nofun fun bounds => Nat.lt_irrefl 0 bounds.1
  | succ index =>
      have inside : (∃ entry, entries[index]? = some entry) ↔
          index < entries.length := by
        simp [List.getElem?_eq_some_iff]
      exact inside.trans ⟨fun less => ⟨Nat.succ_pos index, less⟩,
        fun bounds => bounds.2⟩

theorem entryAt?_append_singleton (entries : List Entry) (entry : Entry)
    (id : TypeId) :
    entryAt? (entries ++ [entry]) id =
      if id = entries.length + 1 then some entry else entryAt? entries id := by
  cases id with
  | zero => rfl
  | succ index =>
      simp only [entryAt?_succ, getElem?_append_singleton, Nat.succ_inj]

namespace Registry

/-- The registry has declarations for exactly the entries, in their order, and
finds them by their names.  Nothing is said of their parents. -/
structure Declares (registry : Registry) (entries : List Entry) : Prop where
  distinct : (entries.map Entry.name).Nodup
  heads : ∀ id, (registry.catalog.declaration? id).map Declaration.rootless =
    (entryAt? entries id).map Entry.head
  id?_eq_some_iff : ∀ name id, registry.id? name = some id ↔
    ∃ entry, entryAt? entries id = some entry ∧ entry.name = name

variable {registry after : Registry} {entries rest : List Entry} {entry : Entry}

namespace Declares

variable (declares : registry.Declares entries)

include declares

theorem rootless_declaration? {id : TypeId}
    (found : entryAt? entries id = some entry) :
    ∃ declaration, registry.catalog.declaration? id = some declaration ∧
      declaration.rootless = entry.head := by
  have heads := declares.heads id
  rw [found, Option.map_some, Option.map_eq_some_iff] at heads
  exact heads

theorem contains_iff (id : TypeId) :
    registry.catalog.contains id = true ↔
      ∃ entry, entryAt? entries id = some entry := by
  have heads := congrArg Option.isSome (declares.heads id)
  rw [Option.isSome_map, Option.isSome_map] at heads
  rw [Catalog.contains, heads, Option.isSome_iff_exists]

theorem size : registry.catalog.size = entries.length := by
  have same : ∀ id, 0 < id ∧ id ≤ registry.catalog.size ↔
      0 < id ∧ id ≤ entries.length := by
    intro id
    rw [← registry.catalog.contains_iff, declares.contains_iff,
      exists_entryAt?_iff]
  have last := same registry.catalog.size
  have lastEntry := same entries.length
  omega

theorem isSome_id?_iff (name : String) :
    (registry.id? name).isSome = true ↔ name ∈ entries.map Entry.name := by
  simp only [Option.isSome_iff_exists, declares.id?_eq_some_iff, List.mem_map]
  constructor
  · rintro ⟨id, entry, found, named⟩
    exact ⟨entry, mem_of_entryAt? found, named⟩
  · rintro ⟨entry, member, named⟩
    obtain ⟨id, found⟩ := exists_entryAt?_of_mem member
    exact ⟨id, entry, found, named⟩

theorem id?_name {id : TypeId} (found : entryAt? entries id = some entry) :
    registry.id? entry.name = some id :=
  (declares.id?_eq_some_iff entry.name id).mpr ⟨entry, found, rfl⟩

theorem kind {id : TypeId} (found : entryAt? entries id = some entry) :
    registry.catalog.kind id = entry.kind := by
  obtain ⟨declaration, declared, head⟩ := declares.rootless_declaration? found
  rw [Catalog.kind, declared]
  exact congrArg Declaration.kind head

theorem arity {id : TypeId} (found : entryAt? entries id = some entry) :
    registry.catalog.arity id = entry.params.length := by
  obtain ⟨declaration, declared, head⟩ := declares.rootless_declaration? found
  rw [Catalog.arity, declared]
  exact congrArg Declaration.arity head

theorem name {id : TypeId} (found : entryAt? entries id = some entry) :
    registry.catalog.name id = entry.name := by
  obtain ⟨declaration, declared, head⟩ := declares.rootless_declaration? found
  rw [Catalog.name, declared]
  exact congrArg Declaration.name head

theorem declare (fresh : entry.name ∉ entries.map Entry.name) :
    (registry.declare entry.kind entry.name entry.params).2.Declares
      (entries ++ [entry]) := by
  have size := declares.size
  refine ⟨?_, fun id => ?_, fun name id => ?_⟩
  · rw [List.map_append, List.nodup_append]
    refine ⟨declares.distinct, List.nodup_singleton _,
      fun first member second singleton same => ?_⟩
    obtain rfl := List.mem_singleton.mp singleton
    exact fresh (same ▸ member)
  · rw [Registry.declare, Catalog.declaration?_add,
      entryAt?_append_singleton, size]
    split
    · rfl
    · exact declares.heads id
  · have lookup :
        (registry.declare entry.kind entry.name entry.params).2.id? name =
          if entry.name = name then some (entries.length + 1)
          else registry.id? name := by
      have unknown : registry.id? entry.name = none := by
        rw [← Option.not_isSome_iff_eq_none]
        exact fun known => fresh ((declares.isSome_id?_iff _).mp known)
      simp only [id?_declare, size, unknown, and_true]
    have unused : ∀ known, entryAt? entries id = some known →
        id ≠ entries.length + 1 := by
      rintro known found rfl
      rw [entryAt?_succ, List.getElem?_eq_none (Nat.le_refl _)] at found
      cases found
    rw [lookup]
    constructor
    · intro known
      split at known
      · rename_i named
        obtain rfl := Option.some.inj known
        exact ⟨entry, by rw [entryAt?_append_singleton, if_pos rfl], named⟩
      · obtain ⟨old, found, named⟩ :=
          (declares.id?_eq_some_iff name id).mp known
        exact ⟨old, by rw [entryAt?_append_singleton, if_neg (unused old found),
          found], named⟩
    · rintro ⟨found, standing, rfl⟩
      rw [entryAt?_append_singleton] at standing
      split at standing
      · rename_i last
        obtain rfl := Option.some.inj standing
        rw [if_pos rfl, last]
      · have member :=
          List.mem_map_of_mem (f := Entry.name) (mem_of_entryAt? standing)
        rw [if_neg fun same : entry.name = found.name => fresh (same ▸ member)]
        exact declares.id?_name standing

end Declares

theorem declares_empty : empty.Declares [] := by
  refine ⟨.nil, fun id => ?_, fun name id => ?_⟩
  · rw [empty, Catalog.declaration?_empty]
    cases id <;> rfl
  · rw [id?, empty, Std.TreeMap.getElem?_emptyc]
    cases id <;> simp [entryAt?]

def Rootless (registry : Registry) : Prop :=
  ∀ id, (registry.catalog.declaration? id).map Declaration.rootless =
    registry.catalog.declaration? id

theorem rootless_empty : empty.Rootless := by
  intro id
  rw [empty, Catalog.declaration?_empty]
  rfl

theorem Rootless.parents (rootless : registry.Rootless) (id : TypeId) :
    registry.catalog.parents id = [] := by
  have same := rootless id
  rw [Catalog.parents, Catalog.superclass, Catalog.interfaces]
  cases declared : registry.catalog.declaration? id with
  | none => rfl
  | some declaration =>
      rw [declared, Option.map_some] at same
      rw [← Option.some.inj same]
      rfl

theorem Rootless.declare (rootless : registry.Rootless) (kind : Kind)
    (name : String) (params : List String) :
    (registry.declare kind name params).2.Rootless := by
  intro id
  rw [Registry.declare, Catalog.declaration?_add]
  split
  · rfl
  · exact rootless id

theorem declareEntry_eq_ok_iff (declares : registry.Declares entries) :
    registry.declareEntry entry = .ok after ↔
      entry.Plain ∧ entry.name ∉ entries.map Entry.name ∧
        after = (registry.declare entry.kind entry.name entry.params).2 := by
  rw [declareEntry, check_bind_eq_ok_iff, entry.check_eq_ok_iff,
    ← declares.isSome_id?_iff]
  refine and_congr_right fun _ => ?_
  simp only [bind, Except.bind, throw, throwThe, MonadExceptOf.throw, pure,
    Except.pure, refusing_eq_ok_iff, Except.ok.injEq, eq_comm (a := after)]

theorem declareEntries_cons_eq_ok_iff :
    registry.declareEntries (entry :: rest) = .ok after ↔
      ∃ middle, registry.declareEntry entry = .ok middle ∧
        middle.declareEntries rest = .ok after := by
  rw [declareEntries, bind_eq_ok_iff]

theorem declares_declareEntries (declares : registry.Declares entries)
    (rootless : registry.Rootless)
    (declared : registry.declareEntries rest = .ok after) :
    (∀ entry ∈ rest, entry.Plain) ∧ after.Declares (entries ++ rest) ∧
      after.Rootless := by
  induction rest generalizing registry entries with
  | nil =>
      obtain rfl := Except.ok.inj declared
      rw [List.append_nil]
      exact ⟨nofun, declares, rootless⟩
  | cons entry rest ih =>
      obtain ⟨middle, first, later⟩ := declareEntries_cons_eq_ok_iff.mp declared
      obtain ⟨plain, fresh, rfl⟩ := (declareEntry_eq_ok_iff declares).mp first
      obtain ⟨others, all, noParents⟩ :=
        ih (declares.declare fresh) (rootless.declare _ _ _) later
      rw [List.append_assoc, List.singleton_append] at all
      exact ⟨List.forall_mem_cons.mpr ⟨plain, others⟩, all, noParents⟩

theorem exists_declareEntries (declares : registry.Declares entries)
    (plain : ∀ entry ∈ rest, entry.Plain)
    (distinct : ((entries ++ rest).map Entry.name).Nodup) :
    ∃ after, registry.declareEntries rest = .ok after := by
  induction rest generalizing registry entries with
  | nil => exact ⟨registry, rfl⟩
  | cons entry rest ih =>
      have fresh : entry.name ∉ entries.map Entry.name := by
        rw [List.map_append, List.nodup_append] at distinct
        exact fun member => distinct.2.2 _ member _ List.mem_cons_self rfl
      rw [← List.singleton_append, ← List.append_assoc] at distinct
      obtain ⟨after, later⟩ := ih (declares.declare fresh)
        (fun other member => plain other (List.mem_cons_of_mem _ member)) distinct
      refine ⟨after, declareEntries_cons_eq_ok_iff.mpr ⟨_, ?_, later⟩⟩
      exact (declareEntry_eq_ok_iff declares).mpr
        ⟨plain entry List.mem_cons_self, fresh, rfl⟩

end Registry

end NominalTypes
