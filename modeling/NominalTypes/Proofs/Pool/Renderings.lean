import Mathlib.Data.List.TFAE
import NominalTypes.Proofs.Expr.Renderings
import NominalTypes.Proofs.Pool.WellFormed
import NominalTypes.Proofs.Session.RoundTrip

namespace NominalTypes

/-! The texts of types tell them apart where the names of the
declarations do. -/

namespace Ty

theorem toList_signature (ty : Ty) :
    ty.signature.toList = ty.expr.signature := by
  induction ty with
  | mk id name slots handle ih =>
      have inside : (slots.map signatureSlot).flatMap String.toList =
          (slots.map slotExpr).flatMap Expr.signature := by
        rw [List.flatMap_map, List.flatMap_map]
        refine List.flatMap_congr fun slot member => ?_
        cases slot with
        | none => rfl
        | some inner => exact ih inner member
      rw [signature, expr_mk, Expr.signature, signatureSlots_eq_join]
      cases slots with
      | nil => simp [Expr.slashed, Expr.argsSignature]
      | cons slot slots =>
          have behind : Expr.argsSignature ((slot :: slots).map slotExpr) =
              '<' :: Expr.restSignature ((slot :: slots).map slotExpr) := rfl
          rw [behind, Expr.restSignature_eq_flatMap, ← inside]
          simp [Expr.slashed]

theorem slotExprs_eq_iff {slots others : List (Option Ty)}
    (each : ∀ inner, some inner ∈ slots → ∀ other, some other ∈ others →
      (inner.expr = other.expr ↔ (inner == other) = true)) :
    slots.map slotExpr = others.map slotExpr ↔
      sameSlots slots others = true := by
  induction slots generalizing others with
  | nil => cases others <;> simp [sameSlots]
  | cons slot slots ih =>
      cases others with
      | nil => simp [sameSlots]
      | cons other others =>
          have first : slotExpr slot = slotExpr other ↔
              sameSlot slot other = true := by
            cases slot with
            | none =>
                cases other with
                | none => exact iff_of_true rfl rfl
                | some ty =>
                    cases ty
                    simp [slotExpr, expr, sameSlot]
            | some ty =>
                cases other with
                | none =>
                    cases ty
                    simp [slotExpr, expr, sameSlot]
                | some ty =>
                    exact each _ List.mem_cons_self _ List.mem_cons_self
          rw [List.map_cons, List.map_cons, List.cons.injEq, sameSlots,
            Bool.and_eq_true, first, ih fun inner member other memberToo =>
              each inner (List.mem_cons_of_mem _ member) other
                (List.mem_cons_of_mem _ memberToo)]

section Belonging

variable {registry : Registry} (legible : registry.Legible)

include legible

theorem Belongs.readable_expr {ty : Ty}
    (belongs : ty.Belongs registry.catalog) : ty.expr.Readable ty.nesting := by
  refine Ty.readable_expr (belongs.imp fun part proper => ?_) le_rfl
  rw [proper.name]
  exact legible.names part.id proper.declared

theorem expr_eq_iff_beq {first second : Ty}
    (belongs : first.Belongs registry.catalog)
    (belongsToo : second.Belongs registry.catalog) :
    first.expr = second.expr ↔ (first == second) = true := by
  induction first generalizing second with
  | mk id name slots handle ih =>
      obtain ⟨otherId, otherName, others, otherHandle⟩ := second
      have names : name = otherName ↔ id = otherId := by
        have called : name = registry.catalog.name id := belongs.here.name
        have calledToo : otherName = registry.catalog.name otherId :=
          belongsToo.here.name
        rw [called, calledToo]
        exact ⟨legible.distinct id otherId belongs.here.declared
            belongsToo.here.declared,
          congrArg registry.catalog.name⟩
      rw [expr_mk, expr_mk, Expr.named.injEq, beq_iff_id_slots, names]
      exact and_congr_right fun _ =>
        slotExprs_eq_iff fun inner member other memberToo =>
          ih inner member (belongs.bound member) (belongsToo.bound memberToo)

theorem told_apart {first second : Ty}
    (belongs : first.Belongs registry.catalog)
    (belongsToo : second.Belongs registry.catalog) :
    List.TFAE [(first == second) = true, first.brief = second.brief,
      first.signature = second.signature] := by
  have readable := belongs.readable_expr legible
  have readableToo := belongsToo.readable_expr legible
  rw [← expr_eq_iff_beq legible belongs belongsToo]
  tfae_have 1 ↔ 2 := by
    rw [← print_expr, ← print_expr, Expr.print_inj readable readableToo]
  tfae_have 1 ↔ 3 := by
    rw [← String.toList_inj, toList_signature, toList_signature,
      Expr.signature_inj readable readableToo]
  tfae_finish

end Belonging

end Ty

theorem Ty.Genuine.belongs {catalog : Catalog} {values : List Ty} {ty : Ty}
    (genuine : ty.Genuine catalog values) : ty.Belongs catalog :=
  genuine.imp fun _ part => ⟨part.declared, part.complete, part.name⟩

/-- Every type that a run answers with belongs to the declarations as they are
at its end.  If these have names of their own, which the grammar reads as names,
then two types are equal exactly if their brief forms are, and exactly if their
signatures are.  This is so for all types that belong to the declarations, and
no matter what is unbound in them. -/
theorem Pool.renderings_distinguish (memoize tracing : Bool)
    (requests : List Request) :
    let outcome :=
      (Scene.empty.performAll answer requests).run (.empty memoize tracing)
    let registry := outcome.1.2.registry
    (∀ answer ∈ outcome.1.1, ∀ ty ∈ answer.held, ty.Belongs registry.catalog) ∧
      (registry.Legible → ∀ first second : Ty, first.Belongs registry.catalog →
        second.Belongs registry.catalog →
        List.TFAE [(first == second) = true, first.brief = second.brief,
          first.signature = second.signature]) := by
  intro outcome registry
  refine ⟨fun answer answered ty member => ?_,
    fun legible first second belongs belongsToo =>
      Ty.told_apart legible belongs belongsToo⟩
  obtain ⟨values, _, served, _⟩ :=
    (Scene.servedBy_empty memoize tracing).performAll requests
  refine (served.shelf ty ?_).belongs
  rw [Scene.shelf_performAll]
  exact List.mem_append_right _
    (List.mem_flatMap.mpr ⟨answer, answered, member⟩)

open Collections in
/-- A list of strings that is made twice is the same list of strings, and it is
not the raw list. -/
theorem Pool.renderings_distinguish_lists :
    let requests :=
      gridRequests ++ [.ask (.resolve 1 [0]), .ask (.resolveRaw 1)]
    let outcome :=
      (Scene.empty.performAll answer requests).run (.empty false false)
    outcome.1.2.registry.Legible ∧
      ∃ lists again raw, .types [some lists] ∈ outcome.1.1 ∧
        .types [some again] ∈ outcome.1.1 ∧
        .types [some raw] ∈ outcome.1.1 ∧ lists.handle ≠ again.handle ∧
        (lists == again) = true ∧ lists.signature = again.signature ∧
        ¬(lists == raw) = true ∧ lists.signature ≠ raw.signature := by
  intro requests outcome
  obtain ⟨held, apart⟩ := renderings_distinguish false false requests
  have legible : outcome.1.2.registry.Legible := by decide +kernel
  let lists : Ty := ⟨1, "List", [some ⟨3, "String", [], some 0⟩], some 1⟩
  let again : Ty := ⟨1, "List", [some ⟨3, "String", [], some 0⟩], some 3⟩
  let raw : Ty := ⟨1, "List", [none], some 4⟩
  have answered : .types [some lists] ∈ outcome.1.1 :=
    List.mem_of_getElem? (i := 6) rfl
  have answeredAgain : .types [some again] ∈ outcome.1.1 :=
    List.mem_of_getElem? (i := 8) rfl
  have answeredRaw : .types [some raw] ∈ outcome.1.1 :=
    List.mem_of_getElem? (i := 9) rfl
  have belongs := held _ answered lists List.mem_cons_self
  have same := apart legible lists again belongs
    (held _ answeredAgain again List.mem_cons_self)
  have different :=
    apart legible lists raw belongs (held _ answeredRaw raw List.mem_cons_self)
  have briefs : lists.brief ≠ raw.brief := by decide +kernel
  refine ⟨legible, lists, again, raw, answered, answeredAgain,
    answeredRaw, by decide,
    (same.out 1 0).mp rfl, (same.out 1 2).mp rfl, ?_, ?_⟩
  · exact fun equal => briefs ((different.out 0 1).mp equal)
  · exact fun equal => briefs ((different.out 2 1).mp equal)

end NominalTypes
