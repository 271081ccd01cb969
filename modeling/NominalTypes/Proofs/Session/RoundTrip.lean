import NominalTypes.Proofs.Expr.RoundTrip
import NominalTypes.Proofs.Registry.Belonging
import NominalTypes.Proofs.Registry.Numbering
import NominalTypes.Proofs.Session.Results

namespace NominalTypes

open NominalTypes.Text

/-! The brief form of a type can be read back as the same type, and whatever a
text is read as has such a form. -/

namespace Ty

mutual

/-- The expression of which the brief form is the text. -/
def expr : Ty → Expr
  | ⟨_, name, slots, _⟩ => .named name (slotExprs slots)

def slotExprs : List (Option Ty) → List Expr
  | [] => []
  | slot :: slots => slotExpr slot :: slotExprs slots

def slotExpr : Option Ty → Expr
  | none => .hole
  | some ty => ty.expr

end

mutual

/-- How deep the angle brackets of the brief form are nested. -/
def nesting : Ty → Nat
  | ⟨_, _, [], _⟩ => 0
  | ⟨_, _, slot :: slots, _⟩ => max (slotNesting slot) (slotsNesting slots) + 1

def slotsNesting : List (Option Ty) → Nat
  | [] => 0
  | slot :: slots => max (slotNesting slot) (slotsNesting slots)

def slotNesting : Option Ty → Nat
  | none => 0
  | some ty => ty.nesting

end

@[simp] theorem slotExprs_eq_map (slots : List (Option Ty)) :
    slotExprs slots = slots.map slotExpr := by
  induction slots with
  | nil => rfl
  | cons slot slots ih => rw [slotExprs, ih, List.map_cons]

theorem expr_mk (id : TypeId) (name : String) (slots : List (Option Ty))
    (handle : Option Nat) :
    expr ⟨id, name, slots, handle⟩ = .named name (slots.map slotExpr) := by
  rw [expr, slotExprs_eq_map]

theorem slotNesting_le_of_mem {slot : Option Ty} {slots : List (Option Ty)}
    (member : slot ∈ slots) : slotNesting slot ≤ slotsNesting slots := by
  induction slots with
  | nil => cases member
  | cons first slots ih =>
      rw [slotsNesting]
      cases member with
      | head => exact le_max_left _ _
      | tail _ later => exact (ih later).trans (le_max_right _ _)

theorem nesting_lt_of_mem {ty inner : Ty} (member : some inner ∈ ty.slots) :
    inner.nesting < ty.nesting := by
  match ty with
  | ⟨id, name, [], handle⟩ => cases member
  | ⟨id, name, slot :: slots, handle⟩ =>
      have least : slotNesting (some inner) ≤ slotsNesting (slot :: slots) :=
        slotNesting_le_of_mem member
      rw [slotsNesting, slotNesting] at least
      rw [nesting]
      exact Nat.lt_succ_of_le least

theorem print_expr (ty : Ty) : ty.expr.print = ty.brief := by
  induction ty with
  | mk id name slots handle ih =>
      rw [expr_mk, Expr.print_named, brief, briefSlots_eq_map, List.map_map]
      refine congrArg (fun texts => name ++ bracketed texts)
        (List.map_congr_left fun slot member => ?_)
      cases slot with
      | none => rfl
      | some inner => exact ih inner member

theorem readable_expr {ty : Ty}
    (names : ty.Everywhere fun part => Expr.isName part.name = true)
    {depth : Nat} (shallow : ty.nesting ≤ depth) : ty.expr.Readable depth := by
  induction ty generalizing depth with
  | mk id name slots handle ih =>
      rw [expr_mk]
      cases slots with
      | nil => exact .name names.here
      | cons slot slots =>
          cases depth with
          | zero => rw [nesting] at shallow; cases shallow
          | succ depth =>
              refine .apply names.here fun arg member => ?_
              obtain ⟨inner, innerMember, rfl⟩ := List.mem_map.mp member
              cases inner with
              | none => exact .hole depth
              | some inner =>
                  have deeper : inner.nesting <
                      nesting ⟨id, name, slot :: slots, handle⟩ :=
                    nesting_lt_of_mem innerMember
                  exact ih inner innerMember
                    (names.bound innerMember) (by omega)

/-- A declared type with a slot for each parameter, and with either all of the
slots bound or none of them. -/
structure Regular (catalog : Catalog) (part : Ty) : Prop where
  declared : catalog.contains part.id = true
  complete : part.slots.length = catalog.arity part.id
  whole : (∀ slot ∈ part.slots, slot ≠ none) ∨ ∀ slot ∈ part.slots, slot = none

theorem isHole_expr (ty : Ty) : ty.expr.isHole = false := by
  cases ty
  rfl

theorem exists_map_some {slots : List (Option Ty)}
    (bound : ∀ slot ∈ slots, slot ≠ none) :
    ∃ types : List Ty, slots = types.map some := by
  induction slots with
  | nil => exact ⟨[], rfl⟩
  | cons slot slots ih =>
      obtain ⟨types, rfl⟩ := ih fun other member =>
        bound other (List.mem_cons_of_mem slot member)
      cases slot with
      | none => exact absurd rfl (bound none List.mem_cons_self)
      | some ty => exact ⟨ty :: types, rfl⟩

theorem exists_sameSlot {slots others : List (Option Ty)}
    (same : sameSlots slots others = true) {slot : Option Ty}
    (member : slot ∈ slots) : ∃ other ∈ others, sameSlot slot other = true := by
  induction slots generalizing others with
  | nil => cases member
  | cons first slots ih =>
      cases others with
      | nil => cases same
      | cons other others =>
          rw [sameSlots, Bool.and_eq_true] at same
          cases member with
          | head => exact ⟨other, List.mem_cons_self, same.1⟩
          | tail _ later =>
              obtain ⟨found, foundMember, equal⟩ := ih same.2 later
              exact ⟨found, List.mem_cons_of_mem other foundMember, equal⟩

theorem Regular.shape {catalog : Catalog} {part : Ty}
    (regular : part.Regular catalog) :
    (∃ types : List Ty, part.slots = types.map some) ∨
      0 < part.slots.length ∧
        part.slots = List.replicate part.slots.length none := by
  rcases regular.whole with bound | unbound
  · exact .inl (exists_map_some bound)
  · cases some : part.slots with
    | nil => exact .inl ⟨[], rfl⟩
    | cons slot slots =>
        rw [some] at unbound
        exact .inr ⟨Nat.succ_pos _, List.eq_replicate_of_mem unbound⟩

section Equal

variable {catalog : Catalog} {first second : Ty}

theorem Regular.of_beq (same : (first == second) = true)
    (regular : second.Regular catalog) : first.Regular catalog := by
  obtain ⟨ids, lengths, _⟩ := (beq_iff first second).mp same
  have each := ((beq_iff_id_slots first second).mp same).2
  refine ⟨ids ▸ regular.declared, lengths.trans (ids ▸ regular.complete), ?_⟩
  rcases regular.whole with bound | unbound
  · refine .inl fun slot member empty => ?_
    obtain ⟨other, otherMember, equal⟩ := exists_sameSlot each member
    subst empty
    cases other with
    | none => exact bound none otherMember rfl
    | some inner => cases equal
  · refine .inr fun slot member => ?_
    obtain ⟨other, otherMember, equal⟩ := exists_sameSlot each member
    rw [unbound other otherMember] at equal
    cases slot with
    | none => rfl
    | some inner => cases equal

theorem everywhere_regular_of_beq (same : (first == second) = true)
    (everywhere : second.Everywhere (Regular catalog)) :
    first.Everywhere (Regular catalog) := by
  induction everywhere generalizing first with
  | @mk second here _ ih =>
      refine .mk (here.of_beq same) fun inner member => ?_
      obtain ⟨other, otherMember, equal⟩ :=
        exists_sameSlot ((beq_iff_id_slots first second).mp same).2 member
      cases other with
      | none => cases equal
      | some other => exact ih other otherMember equal

end Equal

end Ty

namespace Catalog

variable {catalog : Catalog} {id : TypeId} {ty : Ty}

theorem resolve_eq_ok_iff {types : List Ty} :
    catalog.resolve id types = .ok ty ↔ catalog.contains id = true ∧
      types.length = catalog.arity id ∧
        ⟨id, catalog.name id, types.map some, none⟩ = ty := by
  rw [resolve, bindSlots]
  cases catalog.contains id with
  | false => simp [throw, throwThe, MonadExceptOf.throw, bind, Except.bind]
  | true =>
      by_cases complete : types.length = catalog.arity id
      · simp [complete, bind, Except.bind, pure, Except.pure]
      · simp [complete, bind, Except.bind]

theorem resolveRaw_eq_ok_iff :
    catalog.resolveRaw id = .ok ty ↔
      catalog.contains id = true ∧ catalog.raw id = ty := by
  rw [resolveRaw]
  cases catalog.contains id with
  | false => simp [throw, throwThe, MonadExceptOf.throw, bind, Except.bind]
  | true => simp [pure, Except.pure]

end Catalog

namespace Registry

variable {registry : Registry}

/-- Each declaration has a name of its own, and one that the grammar
reads as a name. -/
structure Legible (registry : Registry) : Prop where
  distinct : ∀ id other, registry.catalog.contains id = true →
    registry.catalog.contains other = true →
    registry.catalog.name id = registry.catalog.name other → id = other
  names : ∀ id, registry.catalog.contains id = true →
    Expr.isName (registry.catalog.name id) = true

instance (registry : Registry) : Decidable registry.Legible :=
  decidable_of_iff
    ((∀ id ∈ registry.catalog.ids, ∀ other ∈ registry.catalog.ids,
        registry.catalog.name id = registry.catalog.name other → id = other) ∧
      ∀ id ∈ registry.catalog.ids,
        Expr.isName (registry.catalog.name id) = true) (by
    simp only [Catalog.mem_ids_iff]
    exact ⟨fun ⟨distinct, names⟩ =>
      ⟨fun id other declared found => distinct id declared other found, names⟩,
        fun legible =>
          ⟨fun id declared other found =>
            legible.distinct id other declared found, legible.names⟩⟩)

theorem identify_name (indexed : registry.Indexed) (legible : registry.Legible)
    {id : TypeId} (declared : registry.catalog.contains id = true) :
    registry.identify (registry.catalog.name id) = .ok id := by
  obtain ⟨least, _, found⟩ := indexed.first id declared
  have same : least = id :=
    legible.distinct least id (indexed.declared _ _ found) declared
      (indexed.name _ _ found)
  rw [identify, found, same]

/-- The expression is read as a type with all its slots unbound. -/
def ReadsRaw (registry : Registry) (id : TypeId) (args : List Expr) : Prop :=
  0 < registry.catalog.arity id ∧
    (args.isEmpty ∨ args.length = registry.catalog.arity id ∧
      args.countP Expr.isHole = registry.catalog.arity id)

theorem typeOfExpr_named_eq_ok_iff {name : String}
    {args : List Expr} {ty : Ty} :
    registry.typeOfExpr (.named name args) = .ok ty ↔
      ∃ id, registry.identify name = .ok id ∧
        (registry.ReadsRaw id args ∧ registry.catalog.resolveRaw id = .ok ty ∨
          ¬registry.ReadsRaw id args ∧ args.length = registry.catalog.arity id ∧
            args.countP Expr.isHole = 0 ∧
              ∃ types, registry.typesOfExprs args = .ok types ∧
              registry.catalog.resolve id types = .ok ty) := by
  rw [typeOfExpr, bind_eq_ok_iff]
  refine exists_congr fun id => and_congr_right fun identified => ?_
  by_cases raw : registry.ReadsRaw id args
  · simp only [raw, true_and, not_true_eq_false, false_and, or_false]
    exact (Eq.congr_left (if_pos raw)).trans mapError_eq_ok_iff
  · simp only [raw, false_and, false_or, not_false_eq_true, true_and]
    refine (Eq.congr_left (if_neg raw)).trans ?_
    by_cases complete : args.length = registry.catalog.arity id
    · by_cases bound : args.countP Expr.isHole = 0
      · simp [complete, bound, bind_eq_ok_iff, mapError_eq_ok_iff]
      · simp [complete, bound, Nat.pos_of_ne_zero bound]
    · simp [complete]

theorem typesOfExprs_exprs {types : List Ty}
    (each : ∀ ty ∈ types, ∃ result, registry.typeOfExpr ty.expr = .ok result ∧
      (result == ty) = true) :
    ∃ results, registry.typesOfExprs (types.map Ty.expr) = .ok results ∧
      List.Forall₂ Ty.Equal results types := by
  induction types with
  | nil => exact ⟨[], rfl, .nil⟩
  | cons ty types ih =>
      obtain ⟨result, first, same⟩ := each ty List.mem_cons_self
      obtain ⟨results, later, sames⟩ := ih fun other member =>
        each other (List.mem_cons_of_mem _ member)
      refine ⟨result :: results, ?_, .cons same sames⟩
      rw [List.map_cons, typesOfExprs, first, later]
      rfl

section Identified

variable {name : String} {id : TypeId}
  (identified : registry.identify name = .ok id)
  (declared : registry.catalog.contains id = true)

include identified declared

theorem typeOfExpr_exprs {types results : List Ty}
    (complete : types.length = registry.catalog.arity id)
    (read : registry.typesOfExprs (types.map Ty.expr) = .ok results)
    (same : List.Forall₂ Ty.Equal results types) :
    registry.typeOfExpr (.named name (types.map Ty.expr)) =
      .ok ⟨id, registry.catalog.name id, results.map some, none⟩ := by
  have holes : (types.map Ty.expr).countP Expr.isHole = 0 := by
    simp [Ty.isHole_expr]
  have bound : ¬registry.ReadsRaw id (types.map Ty.expr) := by
    rw [ReadsRaw, holes, List.isEmpty_iff_length_eq_zero, List.length_map]
    omega
  refine typeOfExpr_named_eq_ok_iff.mpr
    ⟨id, identified, .inr ⟨bound, ?_, holes, results, read, ?_⟩⟩
  · rw [List.length_map, complete]
  · exact Catalog.resolve_eq_ok_iff.mpr
      ⟨declared, same.length_eq.trans complete, rfl⟩

theorem typeOfExpr_holes (generic : 0 < registry.catalog.arity id) :
    registry.typeOfExpr (.named name
        (List.replicate (registry.catalog.arity id) .hole)) =
      .ok (registry.catalog.raw id) := by
  have raw : registry.ReadsRaw id
      (List.replicate (registry.catalog.arity id) .hole) :=
    ⟨generic,
      .inr ⟨List.length_replicate, List.countP_replicate.trans (if_pos rfl)⟩⟩
  exact typeOfExpr_named_eq_ok_iff.mpr
    ⟨id, identified, .inl ⟨raw, Catalog.resolveRaw_eq_ok_iff.mpr ⟨declared, rfl⟩⟩⟩

end Identified

theorem typeOfExpr_expr (indexed : registry.Indexed)
    (legible : registry.Legible) {ty : Ty}
    (belongs : ty.Belongs registry.catalog)
    (regular : ty.Everywhere (Ty.Regular registry.catalog)) :
    ∃ result, registry.typeOfExpr ty.expr = .ok result ∧
      (result == ty) = true := by
  induction ty with
  | mk id name slots handle ih =>
      have declared : registry.catalog.contains id = true :=
        belongs.here.declared
      have complete : slots.length = registry.catalog.arity id :=
        belongs.here.complete
      have identified : registry.identify name = .ok id := by
        rw [show name = registry.catalog.name id from belongs.here.name]
        exact identify_name indexed legible declared
      rw [Ty.expr_mk]
      have shape : (∃ types : List Ty, slots = types.map some) ∨
          0 < slots.length ∧ slots = List.replicate slots.length none :=
            regular.here.shape
      obtain ⟨types, rfl⟩ | ⟨generic, unbound⟩ := shape
      · obtain ⟨results, read, same⟩ := typesOfExprs_exprs fun inner member =>
          have nested := List.mem_map_of_mem member
          ih inner nested (belongs.bound nested) (regular.bound nested)
        have exprs : (types.map some).map Ty.slotExpr = types.map Ty.expr := by
          rw [List.map_map]
          rfl
        rw [List.length_map] at complete
        rw [exprs, typeOfExpr_exprs identified declared complete read same]
        exact ⟨_, rfl,
          (Ty.beq_iff_id_slots _ _).mpr ⟨rfl, Ty.sameSlots_of_forall₂ same⟩⟩
      · -- All arguments are holes, so the type is read as a raw one.
        rw [complete] at generic unbound
        subst unbound
        have exprs :
            (List.replicate (registry.catalog.arity id) none).map Ty.slotExpr =
              List.replicate (registry.catalog.arity id) .hole :=
                List.map_replicate
        rw [exprs, typeOfExpr_holes identified declared generic]
        refine ⟨_, rfl, (Ty.beq_iff_id_slots _ _).mpr ⟨rfl, ?_⟩⟩
        exact ((Ty.beq_iff_id_slots _ _).mp (BEq.refl (registry.catalog.raw id))).2

theorem exists_mem_of_typesOfExprs {args : List Expr} {types : List Ty}
    (read : registry.typesOfExprs args = .ok types) {ty : Ty}
    (member : ty ∈ types) : ∃ arg ∈ args, registry.typeOfExpr arg = .ok ty := by
  induction args generalizing types with
  | nil =>
      cases read
      cases member
  | cons arg args ih =>
      simp only [typesOfExprs, bind_eq_ok_iff] at read
      obtain ⟨first, success, others, later, built⟩ := read
      cases built
      cases member with
      | head => exact ⟨arg, List.mem_cons_self, success⟩
      | tail _ member =>
          obtain ⟨found, foundMember, same⟩ := ih later member
          exact ⟨found, List.mem_cons_of_mem arg foundMember, same⟩

theorem regular_of_typeOfExpr {expr : Expr} {ty : Ty}
    (success : registry.typeOfExpr expr = .ok ty) :
    ty.Everywhere (Ty.Regular registry.catalog) := by
  induction expr generalizing ty with
  | hole => cases success
  | named name args ih =>
      obtain ⟨id, _, ⟨_, raw⟩ | ⟨_, _, _, types, read, bound⟩⟩ :=
        typeOfExpr_named_eq_ok_iff.mp success
      · obtain ⟨declared, rfl⟩ := Catalog.resolveRaw_eq_ok_iff.mp raw
        refine .mk ⟨declared, List.length_replicate, .inr fun slot member => ?_⟩
          fun inner member => ?_
        · exact List.eq_of_mem_replicate member
        · cases List.eq_of_mem_replicate member
      · obtain ⟨declared, complete, rfl⟩ := Catalog.resolve_eq_ok_iff.mp bound
        refine .mk ⟨declared, (List.length_map _).trans complete,
            .inl fun slot member => ?_⟩
          fun inner member => ?_
        · obtain ⟨ty, _, rfl⟩ := List.mem_map.mp member
          exact Option.some_ne_none ty
        · obtain ⟨ty, tyMember, ⟨⟩⟩ := List.mem_map.mp member
          obtain ⟨arg, argMember, success⟩ :=
            exists_mem_of_typesOfExprs read tyMember
          exact ih arg argMember success

theorem regular_of_typeOf {text : String} {ty : Ty}
    (success : registry.typeOf text = .ok ty) :
    ty.Everywhere (Ty.Regular registry.catalog) := by
  rw [typeOf] at success
  cases read : Expr.read text with
  | error error => rw [read] at success; cases success
  | ok expr =>
      rw [read] at success
      exact regular_of_typeOfExpr success

/-- Where the declarations can be told apart by names that the grammar reads,
the brief form of a type is read as an equal type, whatever the pool holds.
What a session reads never mixes bound and unbound slots. -/
theorem typeOf_brief (changes : List Change) :
    let registry := run changes
    (registry.Legible → ∀ ty : Ty, ty.Belongs registry.catalog →
      ty.Everywhere (Ty.Regular registry.catalog) → ty.nesting ≤ Expr.maxDepth →
      ∀ pool : Pool, ∃ result,
        ((Session.typeOf registry ty.brief).run.run pool).1 = .ok result ∧
          (result == ty) = true) ∧
    ∀ (text : String) (pool : Pool) (result : Ty),
      ((Session.typeOf registry text).run.run pool).1 = .ok result →
        result.Everywhere (Ty.Regular registry.catalog) := by
  intro registry
  constructor
  · intro legible ty belongs regular shallow pool
    obtain ⟨result, read, same⟩ :=
      typeOfExpr_expr (run_indexed changes) legible belongs regular
    have readable : ty.expr.Readable Expr.maxDepth := by
      refine Ty.readable_expr (belongs.imp fun part proper => ?_) shallow
      rw [proper.name]
      exact legible.names part.id proper.declared
    have outcome : SameOutcome Ty.Equal _ (registry.typeOf ty.brief) :=
      Session.returns_typeOf ty.brief pool
    rw [typeOf, ← Ty.print_expr, Expr.read_print readable] at outcome
    dsimp only at outcome
    rw [read, Ty.print_expr] at outcome
    obtain ⟨other, returned, equal⟩ := outcome.exists_of_ok_right
    exact ⟨other, returned, BEq.trans equal same⟩
  · intro text pool result success
    have outcome : SameOutcome Ty.Equal _ (registry.typeOf text) :=
      Session.returns_typeOf text pool
    rw [success] at outcome
    obtain ⟨other, read, equal⟩ := outcome.exists_of_ok_left
    exact Ty.everywhere_regular_of_beq equal (regular_of_typeOf read)

/-- A list of raw maps is read back from its brief form. -/
theorem typeOf_brief_list :
    ∀ pool : Pool, ∃ result,
      ((Session.typeOf Collections.registry
        (Collections.list (some (Collections.map none none))).brief).run.run
          pool).1 = .ok result ∧
      (result == Collections.list (some (Collections.map none none))) =
        true := by
  have belongs : (Collections.list (some (Collections.map none none))).Belongs
      Collections.registry.catalog := by
    refine Collections.list_belongs ?_
    rintro _ ⟨⟩
    exact Collections.map_belongs nofun nofun
  refine (typeOf_brief _).1 (by decide +kernel) _ belongs
    (.mk ⟨rfl, rfl, .inl ?_⟩ fun inner member => ?_) (by decide)
  · simp [Collections.list]
  · obtain rfl := Option.some.inj (List.mem_singleton.mp member)
    refine .mk ⟨rfl, rfl, .inr ?_⟩ fun inner member => ?_
    · simp [Collections.map]
    · simp [Collections.map] at member

end Registry

end NominalTypes
