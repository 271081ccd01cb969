import NominalTypes.Proofs.Hierarchy.Composition
import NominalTypes.Proofs.Inference.Completeness
import NominalTypes.Proofs.Inference.RoundTrip

namespace NominalTypes

/-! Inference by way of an identity on the path finds what inference in one go
finds, although what is inferred on the way may have unbound slots. -/

namespace Catalog

variable {catalog : Catalog} {known : Ty} {target middle : TypeId}
  {below above : List Step}

/-- A candidate of which the view is the known type is enough for
inference to succeed. -/
theorem exists_infer_of_beq (sound : catalog.Sound) {candidate : Ty}
    (fits : candidate.WellFormed catalog)
    (path : catalog.path candidate.id known.id = some above)
    (same : (catalog.ascend candidate above == known) = true) :
    ∃ result, catalog.infer known candidate.id = .ok result := by
  have slots : (catalog.ascend candidate above).slots = _ :=
    slots_ascend candidate above
  refine (exists_infer_iff_uniform sound path fits slots (Ty.agrees_of_beq same)
    (id_ascend (path_chain path))).mpr ?_
  have shown : ∀ position index found,
      (catalog.declaredView candidate.id known.id above).at? position =
        some (.slot index) →
      known.at? position = some found →
      ∃ inner, candidate.slot? index = some inner ∧
          (found == inner) = true := by
    intro position index found stands nested
    obtain ⟨inner, held, equal⟩ := Ty.exists_at?_of_beq (BEq.symm same) nested
    exact ⟨inner,
      (at?_view sound (path_chain path) fits.complete slots stands).symm.trans
        held, equal⟩
  intro index position other first second stands found standsOther foundOther
  obtain ⟨inner, held, equal⟩ := shown position index first stands found
  obtain ⟨again, heldToo, equalToo⟩ :=
    shown other index second standsOther foundOther
  cases held.symm.trans heldToo
  exact BEq.trans equal (BEq.symm equalToo)

/-- What is inferred from a type without unbound slots is viewed as this type
again, if none are declared on the way. -/
theorem Inferred.ascend_beq (sound : catalog.Sound)
    (closedSound : catalog.ClosedSound) {between : Ty}
    (inferred : catalog.Inferred known middle above between)
    (path : catalog.path middle known.id = some above)
    (declared : catalog.contains middle = true)
    (wellFormed : known.WellFormed catalog) (full : known.isFullyBound = true)
    (closed : ∀ step ∈ above, ∀ arg ∈ step.parent.args,
      arg.AllClosed fun ty => ty.isFullyBound = true) :
    (catalog.ascend between above == known) = true := by
  have chain : catalog.Chain between.id above known.id :=
    inferred.id.symm ▸ path_chain path
  have ids : (catalog.ascend between above).id = known.id := id_ascend chain
  have slots : (catalog.ascend between above).slots = _ :=
    slots_ascend between above
  have viewed := climb_eq_ascend chain rfl
  exact Ty.beq_of_agrees (inferred.view_agrees sound path ids slots)
    (climb_wellFormed sound closedSound chain rfl
      (inferred.wellFormed declared wellFormed) viewed)
    wellFormed (inferred.view_isFullyBound sound path ids slots wellFormed full
      closed) full

section Between

variable (sound : catalog.Sound)
  (chainBelow : catalog.Chain target below middle)
  (chainAbove : catalog.Chain middle above known.id)
  (declared : catalog.contains known.id = true)
  {between : Ty} (inferred : catalog.Inferred known middle above between)

include sound chainBelow chainAbove declared inferred

/-- What is known of a parameter of the target is known of it in what is
inferred on the way. -/
theorem Inferred.exists_at?_between {position : List Nat} {index : Nat}
    {found : Ty}
    (stands : (catalog.declaredView target known.id (below ++ above)).at? position =
      some (.slot index))
    (nested : known.at? position = some found) :
    ∃ inside inner,
      (catalog.declaredView target middle below).at? inside =
        some (.slot index) ∧
      between.at? inside = some inner ∧ (inner == found) = true := by
  obtain ⟨front, place, back, rfl, standsAbove, standsBelow⟩ :=
    (at?_declaredView_append_iff sound chainBelow chainAbove declared).mp stands
  obtain ⟨outer, foundOuter, nested⟩ := Ty.at?_append_iff.mp nested
  obtain ⟨value, bound, same⟩ :=
    inferred.satisfies place front outer standsAbove foundOuter
  obtain ⟨inner, foundInner, equal⟩ :=
    Ty.exists_at?_of_beq (BEq.symm same) nested
  exact ⟨place :: back, inner, standsBelow,
    Ty.at?_cons_eq_some_iff.mpr ⟨value, bound, foundInner⟩,
    BEq.symm equal⟩

/-- What is inferred on the way says nothing of a parameter of the target that
the known type does not say. -/
theorem Inferred.exists_at?_known {inside : List Nat} {index : Nat} {inner : Ty}
    (stands : (catalog.declaredView target middle below).at? inside =
      some (.slot index))
    (nested : between.at? inside = some inner) :
    ∃ position,
        (catalog.declaredView target known.id (below ++ above)).at? position =
        some (.slot index) ∧ known.at? position = some inner := by
  cases inside with
  | nil => cases stands
  | cons place back =>
      obtain ⟨value, bound, nested⟩ := Ty.at?_cons_eq_some_iff.mp nested
      obtain ⟨front, standsAbove, foundOuter⟩ :=
        inferred.fromKnown place value bound
      exact ⟨front ++ back,
        (at?_declaredView_append_iff sound chainBelow chainAbove declared).mpr
          ⟨front, place, back, rfl, standsAbove, stands⟩,
        Ty.at?_append_iff.mpr ⟨value, foundOuter, nested⟩⟩

theorem Inferred.uniform_iff (id : between.id = middle) :
    catalog.Uniform between target below ↔
      catalog.Uniform known target (below ++ above) := by
  subst id
  constructor
  · intro uniform index position other first second stands found
      standsOther foundOther
    obtain ⟨inside, inner, here, nested, same⟩ :=
      inferred.exists_at?_between sound chainBelow chainAbove declared
        stands found
    obtain ⟨insideOther, innerOther, there, nestedOther, sameOther⟩ :=
      inferred.exists_at?_between sound chainBelow chainAbove declared
        standsOther foundOther
    exact BEq.trans (BEq.symm same) (BEq.trans
      (uniform index inside insideOther inner innerOther here nested there
        nestedOther) sameOther)
  · intro uniform index inside insideOther first second here nested
      there nestedOther
    obtain ⟨position, stands, found⟩ :=
      inferred.exists_at?_known sound chainBelow chainAbove declared here nested
    obtain ⟨other, standsOther, foundOther⟩ :=
      inferred.exists_at?_known sound chainBelow chainAbove declared
        there nestedOther
    exact uniform index position other first second stands found
      standsOther foundOther

theorem Inferred.beq_of_between (id : between.id = middle) {again result : Ty}
    (inferredAgain : catalog.Inferred between target below again)
    (inferredResult : catalog.Inferred known target (below ++ above) result) :
    (again == result) = true := by
  subst id
  refine (Ty.beq_iff _ _).mpr ⟨inferredAgain.id.trans inferredResult.id.symm,
    inferredAgain.complete.trans inferredResult.complete.symm, fun index => ?_⟩
  cases bound : again.slot? index with
  | some inner =>
      obtain ⟨inside, here, nested⟩ := inferredAgain.fromKnown index inner bound
      obtain ⟨position, stands, found⟩ :=
        inferred.exists_at?_known sound chainBelow chainAbove
          declared here nested
      obtain ⟨value, boundResult, same⟩ :=
        inferredResult.satisfies index position inner stands found
      rw [boundResult]
      exact BEq.symm same
  | none =>
      cases boundResult : result.slot? index with
      | none => rfl
      | some value =>
          obtain ⟨position, stands, found⟩ :=
            inferredResult.fromKnown index value boundResult
          obtain ⟨inside, inner, here, nested, _⟩ :=
            inferred.exists_at?_between sound chainBelow chainAbove declared
              stands found
          obtain ⟨other, boundOther, _⟩ :=
            inferredAgain.satisfies index inside inner here nested
          rw [bound] at boundOther
          cases boundOther

end Between

section Along

variable (sound : catalog.Sound) (closedSound : catalog.ClosedSound)
  (wellFormed : known.WellFormed catalog)
  (pathBelow : catalog.path target middle = some below)
  (pathAbove : catalog.path middle known.id = some above)
  (path : catalog.path target known.id = some (below ++ above))

include sound wellFormed pathBelow pathAbove path

section Result

variable {result : Ty} (inferred : catalog.infer known target = .ok result)
  (same : (catalog.ascend result (below ++ above) == known) = true)

include closedSound inferred same

/-- The view of the result as the identity on the way is a candidate for what is
inferred on the way. -/
theorem exists_infer_middle :
    ∃ between, catalog.infer known middle = .ok between ∧
      between.Agrees (catalog.ascend result below) := by
  obtain ⟨declared, _⟩ := path_of_infer_eq_ok inferred
  have found := inferred_of_infer sound path inferred
  have chain : catalog.Chain result.id below middle :=
    found.id.symm ▸ path_chain pathBelow
  have fits := climb_wellFormed sound closedSound chain rfl
    (found.wellFormed declared wellFormed) (climb_eq_ascend chain rfl)
  obtain rfl := id_ascend chain
  rw [ascend_append] at same
  obtain ⟨between, inferredBetween⟩ :=
    exists_infer_of_beq sound fits pathAbove same
  exact ⟨between, inferredBetween,
    (inferred_of_infer sound pathAbove inferredBetween).agrees_candidate sound
      pathAbove fits (slots_ascend _ _) (Ty.agrees_of_beq same)⟩

theorem exists_infer_of_middle {between : Ty}
    (inferredBetween : catalog.infer known middle = .ok between) :
    ∃ again, catalog.infer between target = .ok again := by
  obtain ⟨declared, _⟩ := path_of_infer_eq_ok inferred
  have found := inferred_of_infer sound path inferred
  have foundBetween := inferred_of_infer sound pathAbove inferredBetween
  obtain ⟨_, uniform⟩ :=
    (exists_infer_eq_ok_iff sound declared path).mp ⟨result, inferred⟩
  obtain ⟨_, inferredToo, agreement⟩ :=
    exists_infer_middle sound closedSound wellFormed pathBelow pathAbove path
      inferred same
  cases inferredBetween.symm.trans inferredToo
  have chainBelow := path_chain pathBelow
  have ids : (catalog.ascend result below).id = between.id :=
    agreement.symm [] _ _ rfl rfl
  refine (exists_infer_eq_ok_iff sound declared
    (foundBetween.id.symm ▸ pathBelow)).mpr
    ⟨fun error => ?_, ?_⟩
  · exact (view_agrees_iff sound (foundBetween.id.symm ▸ chainBelow)
      found.complete ids (slots_ascend _ _)).mp agreement.symm (.conflict error)
  · exact (foundBetween.uniform_iff sound chainBelow
      (path_chain pathAbove) wellFormed.declared foundBetween.id).mpr uniform

end Result

theorem exists_infer_of_between {between again : Ty}
    (inferredBetween : catalog.infer known middle = .ok between)
    (same : (catalog.ascend between above == known) = true)
    (inferredAgain : catalog.infer between target = .ok again) :
    ∃ result, catalog.infer known target = .ok result := by
  obtain ⟨declared, _⟩ := path_of_infer_eq_ok inferredAgain
  have foundBetween := inferred_of_infer sound pathAbove inferredBetween
  have pathBetween : catalog.path target between.id = some below :=
    foundBetween.id.symm ▸ pathBelow
  have foundAgain := inferred_of_infer sound pathBetween inferredAgain
  obtain ⟨_, uniform⟩ :=
    (exists_infer_eq_ok_iff sound declared pathBetween).mp
      ⟨again, inferredAgain⟩
  have chain : catalog.Chain again.id below between.id :=
    foundAgain.id.symm ▸ path_chain pathBetween
  -- The view of what is inferred last agrees with what is inferred first, so
  -- their views agree further up.
  have agreement :=
    (ascend_agrees (foundAgain.view_agrees sound pathBetween (id_ascend chain)
      (slots_ascend _ _)) above).trans_beq same
  rw [← ascend_append] at agreement
  refine (exists_infer_eq_ok_iff sound declared path).mpr ⟨fun error => ?_, ?_⟩
  · exact (view_agrees_iff sound (path_chain path) foundAgain.complete
      (agreement [] _ _ rfl rfl) (slots_ascend _ _)).mp agreement
      (.conflict error)
  · exact (foundBetween.uniform_iff sound (path_chain pathBelow)
      (path_chain pathAbove) wellFormed.declared foundBetween.id).mp uniform

end Along

end Catalog

namespace Registry

/-- Inference from a type without unbound slots can go by way of an identity on
the path: it succeeds in one go exactly when it succeeds in both parts, and
finds the same.  What is inferred on the way holds only what the known type
shows of it, and this is all that the second part needs. -/
theorem infer_along_path {registry : Registry} (reachable : registry.Reachable)
    (closed : ∀ id, ∀ parent ∈ registry.catalog.parents id,
      parent.term.AllClosed fun ty => ty.isFullyBound = true)
    {known : Ty} (wellFormed : known.WellFormed registry.catalog)
    (full : known.isFullyBound = true) {target middle : TypeId}
    {steps : List Step}
    (path : registry.catalog.path target known.id = some steps)
    (visited : middle ∈ target :: steps.map (·.parent.id)) :
    ((∃ result, registry.catalog.infer known target = .ok result) ↔
      ∃ between, registry.catalog.infer known middle = .ok between ∧
        ∃ again, registry.catalog.infer between target = .ok again) ∧
    ∀ result between again, registry.catalog.infer known target = .ok result →
      registry.catalog.infer known middle = .ok between →
      registry.catalog.infer between target = .ok again →
        (again == result) = true := by
  have sound := reachable.sound
  have closedSound := reachable.closedSound
  obtain ⟨below, above, rfl, pathBelow, pathAbove⟩ :=
    Catalog.exists_path_split path visited
  have view_beq : ∀ {origin : TypeId} {steps : List Step} {inferred : Ty},
      registry.catalog.path origin known.id = some steps →
      registry.catalog.infer known origin = .ok inferred →
      (registry.catalog.ascend inferred steps == known) = true :=
    fun path inferred =>
      (Catalog.inferred_of_infer sound path inferred).ascend_beq sound
        closedSound path (Catalog.path_of_infer_eq_ok inferred).1
          wellFormed full
        ((Catalog.path_chain path).args_allClosed closed)
  refine ⟨⟨?_, ?_⟩, ?_⟩
  · rintro ⟨result, inferred⟩
    have same := view_beq path inferred
    obtain ⟨between, inferredBetween, _⟩ :=
      Catalog.exists_infer_middle sound closedSound
        wellFormed pathBelow pathAbove path inferred same
    exact ⟨between, inferredBetween,
      Catalog.exists_infer_of_middle sound closedSound wellFormed
      pathBelow pathAbove path inferred same inferredBetween⟩
  · rintro ⟨between, inferredBetween, again, inferredAgain⟩
    exact Catalog.exists_infer_of_between sound wellFormed pathBelow pathAbove
      path inferredBetween (view_beq pathAbove inferredBetween) inferredAgain
  · intro result between again inferred inferredBetween inferredAgain
    have found := Catalog.inferred_of_infer sound pathAbove inferredBetween
    exact found.beq_of_between sound (Catalog.path_chain pathBelow)
      (Catalog.path_chain pathAbove) wellFormed.declared found.id
      (Catalog.inferred_of_infer sound (found.id.symm ▸ pathBelow) inferredAgain)
      (Catalog.inferred_of_infer sound path inferred)

open Collections in
/-- A map to lists of strings is inferred to be a sheet of strings by way of a
grid of which the columns are unknown. -/
theorem infer_along_path_sheet :
    ∃ between again,
      withSheets.catalog.infer (map string (list string)) 4 = .ok between ∧
      between.isFullyBound = false ∧
      withSheets.catalog.infer between 6 = .ok again ∧
      withSheets.catalog.infer (map string (list string)) 6 =
        .ok (sheet string) ∧
      (again == sheet string) = true := by
  have path : withSheets.catalog.path 6 2 =
      some [⟨.superclass, ⟨4, [.slot 0, .apply 3 []]⟩⟩,
        ⟨.interface 0, ⟨2, [.slot 0, .apply 1 [.slot 0]]⟩⟩] := rfl
  have inferred : withSheets.catalog.infer (map string (list string)) 6 =
      .ok (sheet string) := rfl
  obtain ⟨changes, made, closed⟩ := exists_changes_withSheets
  obtain ⟨splits, same⟩ := @infer_along_path withSheets withSheets_reachable
    (made ▸ allClosed_run fun change member => closed change member _)
    (map string (list string)) (by decide) (by decide) 6 4 _ path (by decide)
  obtain ⟨between, inferredBetween, again, inferredAgain⟩ :=
    splits.mp ⟨_, inferred⟩
  cases inferredBetween
  exact ⟨_, again, rfl, rfl, inferredAgain, inferred,
    same _ _ _ inferred rfl inferredAgain⟩

end Registry

end NominalTypes
