import Mathlib.Data.List.Sort
import NominalTypes.Proofs.Registry.Numbering

namespace NominalTypes

/-! Identities of 32 bits.

A counter of this width starts over at zero after the last word, and from then
on declarations take the places of others.  Until then nobody can tell it from
the natural numbers. -/

/-- Declarations and names under words that a counter hands out. -/
structure Ledger where
  next : UInt32
  declarations : Std.TreeMap UInt32 Declaration
  names : Std.TreeMap String UInt32

namespace Ledger

def empty : Ledger := ⟨1, ∅, ∅⟩

/-- The words in use, in ascending order. -/
def ids (ledger : Ledger) : List UInt32 := ledger.declarations.keys

def id? (ledger : Ledger) (name : String) : Option UInt32 := ledger.names[name]?

/-- Puts a declaration without parents under the next word, whatever
has been there. -/
def declare (ledger : Ledger) (kind : Kind) (name : String)
    (params : List String) : UInt32 × Ledger :=
  let id := ledger.next
  (id,
    { next := id + 1
      declarations :=
        ledger.declarations.insert id
          ⟨kind, name, params.length, params, none, []⟩
      names := ledger.names.insertIfNew name id })

/-- Makes the link if the rule accepts it.  What the rule is plays no part in
the numbering. -/
def link (accepts : Ledger → Link → Bool) (ledger : Ledger)
    (link : Link) : Ledger :=
  if accepts ledger link then
    { ledger with
      declarations := ledger.declarations.modify (.ofNat link.owner) link.join }
  else ledger

def apply (accepts : Ledger → Link → Bool) (ledger : Ledger) : Change → Ledger
  | .declare kind name params => (ledger.declare kind name params).2
  | .setSuperclass owner parent => ledger.link accepts ⟨owner, true, parent⟩
  | .addInterface owner parent => ledger.link accepts ⟨owner, false, parent⟩

def run (accepts : Ledger → Link → Bool) (changes : List Change) : Ledger :=
  changes.foldl (apply accepts) empty

variable {accepts : Ledger → Link → Bool} {ledger : Ledger}
  {registry : Registry}

theorem apply_change (ledger : Ledger) (link : Link) :
    ledger.apply accepts link.change = ledger.link accepts link := by
  obtain ⟨owner, asSuperclass, parent⟩ := link
  cases asSuperclass <;> rfl

theorem next_link (link : Link) :
    (ledger.link accepts link).next = ledger.next := by
  rw [Ledger.link]
  split <;> rfl

theorem names_link (link : Link) :
    (ledger.link accepts link).names = ledger.names := by
  rw [Ledger.link]
  split <;> rfl

theorem heads_link (link : Link) (id : UInt32) :
    (ledger.link accepts link).declarations[id]?.map Declaration.rootless =
      ledger.declarations[id]?.map Declaration.rootless := by
  rw [Ledger.link]
  split
  · rw [Std.TreeMap.getElem?_modify]
    split
    · rename_i same
      obtain rfl := Std.compare_eq_iff_eq.mp same
      simp [Function.comp_def]
    · rfl
  · rfl

/-- The counter shows how many declarations there were, as far as
its width goes. -/
theorem next_run (accepts : Ledger → Link → Bool) (changes : List Change) :
    (run accepts changes).next = .ofNat ((declaredBy changes).length + 1) := by
  induction changes using List.reverseRecOn with
  | nil => rfl
  | append_singleton changes change ih =>
      rw [run, List.foldl_concat, ← run, declaredBy_append, List.length_append]
      rcases change.eq_declare_or_link with
        ⟨kind, name, params, rfl⟩ | ⟨link, rfl⟩
      · change (run accepts changes).next + 1 =
          .ofNat ((declaredBy changes).length + 1 + 1)
        rw [ih, UInt32.ofNat_add ((declaredBy changes).length + 1) 1]
        rfl
      · rw [apply_change, next_link, ih, declaredBy_cons,
          link.declaration?_change]
        rfl

/-- Whatever is asked of the ledger, parents apart, the registry knows under the
same identities. -/
structure Agrees (ledger : Ledger) (registry : Registry) : Prop where
  heads : ∀ id : UInt32, ledger.declarations[id]?.map Declaration.rootless =
    (registry.catalog.declaration? id.toNat).map Declaration.rootless
  id? : ∀ name, (ledger.id? name).map UInt32.toNat = registry.id? name

namespace Agrees

theorem mem_iff (agrees : ledger.Agrees registry) (id : UInt32) :
    id ∈ ledger.declarations ↔ registry.catalog.contains id.toNat = true := by
  have heads := congrArg Option.isSome (agrees.heads id)
  rw [Option.isSome_map, Option.isSome_map] at heads
  rw [← Std.TreeMap.isSome_getElem?_iff_mem, heads]
  exact Iff.rfl

/-- The words in use are the declared identities, if there are not more of
these than words. -/
theorem map_toNat_ids (agrees : ledger.Agrees registry)
    (few : registry.catalog.size < 2 ^ 32) :
    ledger.ids.map UInt32.toNat = registry.catalog.ids := by
  have ascending : (ledger.ids.map UInt32.toNat).Pairwise (· < ·) := by
    refine Std.TreeMap.ordered_keys.map UInt32.toNat fun first second less => ?_
    exact UInt32.lt_iff_toNat_lt.mp (Std.compare_eq_lt.mp less)
  have ascendingToo : registry.catalog.ids.Pairwise (· < ·) :=
    List.pairwise_lt_range' 1
  refine ascending.eq_of_mem_iff ascendingToo fun id => ?_
  rw [List.mem_map, registry.catalog.mem_ids_iff]
  constructor
  · rintro ⟨word, used, rfl⟩
    exact (agrees.mem_iff word).mp (Std.TreeMap.mem_keys.mp used)
  · intro declared
    have inside := ((registry.catalog.contains_iff id).mp declared).2
    have fits : (UInt32.ofNat id).toNat = id :=
      UInt32.toNat_ofNat_of_lt' (inside.trans_lt few)
    refine ⟨.ofNat id, Std.TreeMap.mem_keys.mpr ((agrees.mem_iff _).mpr ?_), fits⟩
    rwa [fits]

theorem size (agrees : ledger.Agrees registry)
    (few : registry.catalog.size < 2 ^ 32) :
    ledger.declarations.size = registry.catalog.size := by
  have lengths := congrArg List.length (agrees.map_toNat_ids few)
  rwa [List.length_map, Catalog.ids, List.length_range', ids,
    Std.TreeMap.length_keys] at lengths

/-- When the counter stands at the next identity, both sides declare under
the same one. -/
theorem declare (agrees : ledger.Agrees registry)
    (next : ledger.next.toNat = registry.catalog.size + 1) (kind : Kind)
    (name : String) (params : List String) :
    (ledger.declare kind name params).2.Agrees
      (registry.declare kind name params).2 := by
  refine ⟨fun id => ?_, fun other => ?_⟩
  · rw [Ledger.declare, Registry.declare, Std.TreeMap.getElem?_insert,
      Catalog.declaration?_add, ← next]
    by_cases newest : ledger.next = id
    · subst newest
      rw [if_pos Std.compare_self, if_pos rfl]
    · rw [if_neg (mt Std.compare_eq_iff_eq.mp newest),
        if_neg fun same => newest (UInt32.toNat_inj.mp same).symm]
      exact agrees.heads id
  · have unknown : name ∉ ledger.names ↔ registry.id? name = none := by
      rw [← Std.TreeMap.isSome_getElem?_iff_mem, Option.not_isSome_iff_eq_none,
        ← agrees.id?, Option.map_eq_none_iff]
      exact Iff.rfl
    rw [Ledger.id?, Ledger.declare, Std.TreeMap.getElem?_insertIfNew,
      Registry.id?_declare, ← next, apply_ite (Option.map UInt32.toNat)]
    exact if_congr (and_congr Std.compare_eq_iff_eq unknown) rfl
      (agrees.id? other)

theorem link (agrees : ledger.Agrees registry) (link : Link) :
    (ledger.link accepts link).Agrees registry where
  heads id := (heads_link link id).trans (agrees.heads id)
  id? name := by
    rw [Ledger.id?, names_link]
    exact agrees.id? name

theorem registry_link {link : Link} {after : Registry}
    (agrees : ledger.Agrees registry)
    (linked : registry.link link = .ok after) : ledger.Agrees after where
  heads id :=
    (agrees.heads id).trans (Registry.sameHeads_link linked id.toNat).symm
  id? name := by
    rw [Registry.id?, Registry.names_link linked]
    exact agrees.id? name

/-- Which links are accepted on either side makes no difference. -/
theorem apply (agrees : ledger.Agrees registry) (change : Change)
    (next : ledger.next = .ofNat (registry.catalog.size + 1))
    (few : registry.catalog.size + (declaredBy [change]).length < 2 ^ 32) :
    (ledger.apply accepts change).Agrees (registry.apply change) := by
  rcases change.eq_declare_or_link with ⟨kind, name, params, rfl⟩ | ⟨link, rfl⟩
  · have inside : (UInt32.ofNat (registry.catalog.size + 1)).toNat =
        registry.catalog.size + 1 :=
      UInt32.toNat_ofNat_of_lt' few
    exact agrees.declare (next ▸ inside) kind name params
  · rw [apply_change, Registry.apply_change]
    cases outcome : registry.link link with
    | error _ => exact agrees.link link
    | ok after => exact (agrees.link link).registry_link outcome

end Agrees

theorem agrees_empty : empty.Agrees .empty := by
  refine ⟨fun id => ?_, fun name => ?_⟩
  · rw [empty, Std.TreeMap.getElem?_emptyc, Registry.empty,
      Catalog.declaration?_empty]
  · rw [Ledger.id?, empty, Std.TreeMap.getElem?_emptyc, Registry.id?,
      Registry.empty, Std.TreeMap.getElem?_emptyc]
    rfl

theorem agrees_run {changes : List Change}
    (few : (declaredBy changes).length < 2 ^ 32) :
    (run accepts changes).Agrees (Registry.run changes) := by
  induction changes using List.reverseRecOn with
  | nil => exact agrees_empty
  | append_singleton changes change ih =>
      have size := (Registry.numbers_run changes).size
      rw [declaredBy_append, List.length_append, ← size] at few
      rw [run, Registry.run, List.foldl_concat, List.foldl_concat]
      -- Only the counter before the call matters.  After the last declaration
      -- it may have started over.
      refine (ih (by omega)).apply change ?_ few
      rw [size]
      exact next_run accepts changes

/-- The bound is sharp: the declaration that comes after the last word is given
zero, which is no identity. -/
theorem isValid_next_run_iff (accepts : Ledger → Link → Bool)
    (changes : List Change) :
    TypeId.isValid (run accepts changes).next.toNat = true ↔
      ¬ 2 ^ 32 ∣ (declaredBy changes).length + 1 := by
  rw [next_run, UInt32.toNat_ofNat', TypeId.isValid, decide_eq_true_iff,
    Nat.dvd_iff_mod_eq_zero, Nat.pos_iff_ne_zero]

end Ledger

namespace Registry

/-- In any run of calls that declares fewer types than there are words of 32
bits, the declarations get the identities one, two, three and so on, and these
are all.  A name leads to the first declaration that has it.  Of what was said
of an identity besides its parents, nothing ever changes.  A counter of 32 bits
does the same, whichever links are accepted. -/
theorem run_numbered (changes : List Change)
    (few : (declaredBy changes).length < 2 ^ 32) :
    (∀ before kind name params later,
      changes = before ++ .declare kind name params :: later →
      ((run before).declare kind name params).1 =
          (declaredBy before).length + 1 ∧
        (∃ declaration,
          (run changes).catalog.declaration? ((declaredBy before).length + 1) =
              some declaration ∧
            declaration.rootless = ⟨kind, name, params.length, params, none, []⟩) ∧
        ∀ accepts,
          ((Ledger.run accepts before).declare kind name params).1.toNat =
          (declaredBy before).length + 1) ∧
    (run changes).catalog.ids = List.range' 1 (declaredBy changes).length ∧
    (run changes).catalog.size = (declaredBy changes).length ∧
    (∀ id, (run changes).catalog.contains id = true ↔
      1 ≤ id ∧ id ≤ (declaredBy changes).length) ∧
    (∀ name, (∀ id, (run changes).id? name = some id ↔
        IsLeast (idsNamed (declaredBy changes) name) id) ∧
      ((run changes).id? name = none ↔ idsNamed (declaredBy changes) name = ∅)) ∧
    (∀ later, (run changes).catalog.Extends (run (changes ++ later)).catalog) ∧
    ∀ accepts, (Ledger.run accepts changes).Agrees (run changes) ∧
      (Ledger.run accepts changes).ids.map UInt32.toNat =
        (run changes).catalog.ids ∧
      (Ledger.run accepts changes).declarations.size =
        (run changes).catalog.size := by
  have numbers := numbers_run changes
  refine ⟨?_, numbers.ids, numbers.size, numbers.contains_iff,
    fun name => ?_, fun later => ?_, fun accepts => ?_⟩
  · rintro before kind name params later rfl
    have declared : declaredBy (before ++ .declare kind name params :: later) =
        declaredBy before ++
          ⟨kind, name, params.length, params, none, []⟩ :: declaredBy later :=
      declaredBy_append before _
    have place :
        (declaredBy (before ++ .declare kind name params :: later))[
            (declaredBy before).length]? =
          some ⟨kind, name, params.length, params, none, []⟩ := by
      simp [declared]
    refine ⟨congrArg Nat.succ (numbers_run before).size, ?_, fun accepts => ?_⟩
    · exact Option.map_eq_some_iff.mp ((numbers.heads _).trans place)
    · rw [declared, List.length_append, List.length_cons] at few
      change (Ledger.run accepts before).next.toNat = _
      rw [Ledger.next_run]
      exact UInt32.toNat_ofNat_of_lt' (lt_of_le_of_lt (by omega) few)
  · exact ⟨numbers.id?_eq_some_iff name, numbers.id?_eq_none_iff name⟩
  · have more := numbers_run (changes ++ later)
    rw [declaredBy_append] at more
    exact numbers.extends more
  · have agrees : (Ledger.run accepts changes).Agrees (run changes) :=
      Ledger.agrees_run few
    rw [← numbers.size] at few
    exact ⟨agrees, agrees.map_toNat_ids few, agrees.size few⟩

/-- A box is not its own superclass, and the second box does not take the name
from the first. -/
theorem run_numbered_repeated :
    let changes : List Change := [.declare .classType "Box" ["T"],
      .setSuperclass 1 ⟨1, [.slot 0]⟩, .declare .interfaceType "Shape" [],
      .addInterface 1 ⟨2, []⟩, .declare .interfaceType "Box" []]
    (declaredBy changes).length < 2 ^ 32 ∧
      ((run (changes.take 4)).declare .interfaceType "Box" []).1 = 3 ∧
      (run changes).catalog.ids = [1, 2, 3] ∧ (run changes).id? "Box" = some 1 ∧
      (Ledger.run (fun _ _ => true) changes).ids.map UInt32.toNat =
        [1, 2, 3] := by
  intro changes
  have few : (declaredBy changes).length < 2 ^ 32 := by decide
  obtain ⟨numbered, ids, _, _, names, _, ledger⟩ := run_numbered changes few
  refine ⟨few, (numbered (changes.take 4) _ _ _ [] rfl).1, ids, ?_,
    (ledger _).2.1.trans ids⟩
  refine ((names "Box").1 1).mpr ⟨⟨0, rfl, rfl⟩, ?_⟩
  rintro _ ⟨index, rfl, _⟩
  exact Nat.le_add_left 1 index

end Registry

end NominalTypes
