import NominalTypes.Proofs.Inference.Locating
import NominalTypes.Proofs.Inference.Outcome

namespace NominalTypes

/-! Why inference fails: the first position at which the known type speaks
against the declared view. -/

namespace Solution

variable {target : Target} {findings : List Finding} {start : Solution}

/-- Adding findings fails at the first that cannot be added to what has been
found before it. -/
theorem exists_split_of_foldlM {error : TypeError}
    (failed : findings.foldlM (add target) start = .error error) :
    ∃ before finding after solution, findings = before ++ finding :: after ∧
      before.foldlM (add target) start = .ok solution ∧
      add target solution finding = .error error := by
  induction findings generalizing start with
  | nil => cases failed
  | cons finding rest ih =>
      rw [List.foldlM_cons] at failed
      cases step : add target start finding with
      | error first =>
          rw [step] at failed
          cases failed
          exact ⟨[], finding, rest, start, rfl, rfl, step⟩
      | ok middle =>
          rw [step] at failed
          obtain ⟨before, last, after, solution, rfl, added, refused⟩ :=
            ih failed
          refine ⟨finding :: before, last, after, solution, rfl, ?_, refused⟩
          rw [List.foldlM_cons, step]
          exact added

theorem value?_bind_self {middle : Solution} {index : Nat} {known : Ty}
    (bound : start.bind target index known = .ok middle)
    (inRange : index < start.length) (unknown : value? start index = none) :
    value? middle index = some known := by
  rcases bind_eq_ok_iff.mp bound with ⟨_, rfl⟩ | ⟨first, present, _⟩
  · exact value?_set_self inRange known
  · cases unknown.symm.trans present

theorem value?_bind_of_ne {middle : Solution} {place index : Nat} {known : Ty}
    (bound : start.bind target place known = .ok middle)
    (distinct : place ≠ index) : value? middle index = value? start index := by
  rcases bind_eq_ok_iff.mp bound with ⟨_, rfl⟩ | ⟨_, _, _, rfl⟩
  · exact value?_set_of_ne start distinct known
  · rfl

/-- What is found for a parameter is what the first equation says
that is about it. -/
theorem exists_first_equation {solution : Solution}
    (inRange : InRange start.length findings)
    (added : findings.foldlM (add target) start = .ok solution) {index : Nat}
    {first : Ty} (unknown : value? start index = none)
    (found : value? solution index = some first) :
    ∃ before after, findings = before ++ .equation index first :: after ∧
      ∀ known, Finding.equation index known ∉ before := by
  induction findings generalizing start with
  | nil =>
      cases added
      cases unknown.symm.trans found
  | cons finding rest ih =>
      rw [List.foldlM_cons] at added
      cases finding with
      | conflict error => cases added
      | equation place known =>
          rw [Solution.add] at added
          obtain ⟨middle, bound, later⟩ := NominalTypes.bind_eq_ok_iff.mp added
          have placeInRange := inRange place known List.mem_cons_self
          have restInRange : InRange middle.length rest :=
            fun other ty member => by
              rw [(solves_of_bind placeInRange bound).length]
              exact inRange other ty (List.mem_cons_of_mem _ member)
          by_cases same : place = index
          · subst same
            have kept := (solves_of_foldlM restInRange later).keeps place known
              (value?_bind_self bound placeInRange unknown)
            obtain rfl := Option.some.inj (kept.symm.trans found)
            exact ⟨[], rest, rfl, fun _ => List.not_mem_nil⟩
          · obtain ⟨before, after, rfl, fresh⟩ :=
              ih restInRange later
                ((value?_bind_of_ne bound same).trans unknown)
            refine ⟨.equation place known :: before, after, rfl,
              fun ty member => ?_⟩
            cases member with
            | head => exact same rfl
            | tail _ member => exact fresh ty member

theorem bind_eq_error {solution : Solution} {index : Nat} {known : Ty}
    {error : TypeError}
    (refused : solution.bind target index known = .error error) :
    ∃ first, value? solution index = some first ∧ (first == known) = false ∧
      error = .parameterConflict target.name
        (target.params[index]?.getD ("#" ++ toString (index + 1))) first.brief
          known.brief := by
  cases held : value? solution index with
  | none =>
      rw [bind_of_none held] at refused
      cases refused
  | some first =>
      cases same : first == known with
      | true =>
          rw [bind_of_beq held same] at refused
          cases refused
      | false =>
          refine ⟨first, rfl, same, ?_⟩
          rw [value?] at held
          rw [bind, held] at refused
          simpa [same] using refused.symm

theorem beq_of_equations {solution : Solution}
    (inRange : InRange start.length findings)
    (added : findings.foldlM (add target) start = .ok solution) {index : Nat}
    {first second : Ty} (left : Finding.equation index first ∈ findings)
    (right : Finding.equation index second ∈ findings) :
    (first == second) = true := by
  have solves := solves_of_foldlM inRange added
  obtain ⟨value, held, same⟩ := solves.satisfies index first left
  obtain ⟨other, heldToo, sameToo⟩ := solves.satisfies index second right
  obtain rfl := Option.some.inj (held.symm.trans heldToo)
  exact BEq.trans (BEq.symm same) sameToo

end Solution

namespace Pattern

/-- At a position of the declared view the known type is refused with the error:
it has another identity than the view, or it is not the type that stands where
the parameter was met first. -/
inductive Offends (catalog : Catalog) (target : Target) (view : Pattern)
    (known : Ty) :
    List Nat → TypeError → Prop
  | identity {position : List Nat} {place : Position} {part : Pattern}
      {nested : Ty} {id : TypeId}
      (meets : view.Meets known position place part nested)
      (found : part.id? = some id)
      (different : id ≠ nested.id) :
      Offends catalog target view known position
        (place.mismatch nested.brief (part.describe catalog target.params))
  | parameter {position earlier : List Nat} {place start : Position}
      {index : Nat} {first second : Ty}
      (begins : view.Meets known earlier start (.var index) first)
      (least : ∀ other slot ty, view.Meets known other slot (.var index) ty →
        ¬other < earlier)
      (meets : view.Meets known position place (.var index) second)
      (different : (first == second) = false) :
      Offends catalog target view known position
        (.parameterConflict target.name
          (target.params[index]?.getD ("#" ++ toString (index + 1)))
          first.brief second.brief)

theorem Meets.ne_nil {pattern part : Pattern} {known nested : Ty}
    {position : List Nat} {place : Position}
    (meets : pattern.Meets known position place part nested) :
    position ≠ [] := by
  cases meets with
  | here => exact List.cons_ne_nil _ _
  | inside => exact List.cons_ne_nil _ _

theorem Meets.unique {pattern part other : Pattern} {known nested opposite : Ty}
    {position : List Nat} {place again : Position}
    (meets : pattern.Meets known position place part nested)
    (meetsToo : pattern.Meets known position again other opposite) :
    place = again ∧ part = other ∧ nested = opposite := by
  induction meets with
  | here _ left right =>
      cases meetsToo with
      | here _ leftToo rightToo =>
          cases left.symm.trans leftToo
          cases right.symm.trans rightToo
          exact ⟨rfl, rfl, rfl⟩
      | inside _ _ _ deeper => exact absurd rfl deeper.ne_nil
  | inside _ left right deeper ih =>
      cases meetsToo with
      | here => exact absurd rfl deeper.ne_nil
      | inside _ leftToo rightToo deeperToo =>
          cases left.symm.trans leftToo
          cases right.symm.trans rightToo
          exact ih deeperToo

theorem Meets.sits {catalog : Catalog} {arity : Nat} {pattern part : Pattern}
    {known nested : Ty} {position : List Nat} {place : Position}
    (meets : pattern.Meets known position place part nested)
    (sits : pattern.Sits catalog arity) : part.Sits catalog arity := by
  induction meets with
  | here _ left _ => exact sits.args _ (List.mem_of_getElem? left)
  | inside _ left _ _ ih => exact ih (sits.args _ (List.mem_of_getElem? left))

section Offends

variable {catalog : Catalog} {target : Target} {view : Pattern} {known : Ty}
  {position : List Nat} {error : TypeError} {findings : List Finding}
  {start : Solution}

/-- Findings that reach up to an offence cannot be added up. -/
theorem Offends.not_foldlM_ok
    (offends : view.Offends catalog target known position error)
    (listed : ∀ other finding, ¬position < other →
      view.Within catalog target.params known other finding →
        finding ∈ findings)
    (inRange : Solution.InRange start.length findings) (solution : Solution) :
    findings.foldlM (Solution.add target) start ≠ .ok solution := by
  intro added
  cases offends with
  | identity meets found different =>
      have member :=
        listed position _ (List.lt_irrefl _)
          ⟨_, _, _, meets, .conflict found different⟩
      exact Solution.noConflict_of_foldlM added _ member
  | parameter begins least meets different =>
      have left := listed _ _ (least _ _ _ meets) ⟨_, _, _, begins, .equation⟩
      have right :=
        listed position _ (List.lt_irrefl _) ⟨_, _, _, meets, .equation⟩
      rw [Solution.beq_of_equations inRange added left right] at different
      cases different

theorem exists_first_offence
    (locates : Locates (view.Within catalog target.params known) findings)
    (inRange : Solution.InRange start.length findings)
    (empty : ∀ index, start.value? index = none)
    (failed : findings.foldlM (Solution.add target) start = .error error) :
    ∃ position, view.Offends catalog target known position error ∧
      ∀ other earlier, view.Offends catalog target known other earlier →
        ¬other < position := by
  obtain ⟨before, finding, after, solution, rfl, added, refused⟩ :=
    Solution.exists_split_of_foldlM failed
  have beforeInRange : Solution.InRange start.length before :=
    fun index ty member =>
      inRange index ty (List.mem_append_left _ member)
  obtain ⟨position, ⟨place, part, nested, meets, tells⟩, front⟩ := locates.split
  refine ⟨position, ?_, fun other earlier offends less => ?_⟩
  · cases tells with
    | conflict found different =>
        cases refused
        exact .identity meets found different
    | equation =>
        -- The parameter has got its type from an equation before this one, and
        -- the first of them stands first.
        rename_i index
        obtain ⟨first, held, different, rfl⟩ := Solution.bind_eq_error refused
        obtain ⟨opening, _, rfl, fresh⟩ :=
          Solution.exists_first_equation beforeInRange added (empty index) held
        obtain ⟨earlier, ⟨⟨start, _, _, begins, tells⟩, less⟩, opened⟩ :=
          front.split
        cases tells
        refine .parameter begins (fun other slot ty again lessToo => ?_)
          meets different
        have within : view.Within catalog target.params known other
            (.equation index ty) :=
          ⟨slot, _, ty, again, .equation⟩
        exact fresh ty (opened.mem_iff.mpr
          ⟨other, ⟨within, List.lt_trans lessToo less⟩, lessToo⟩)
  · -- An earlier offence would have been among the findings that were added.
    refine offends.not_foldlM_ok (fun place finding notLater within => ?_)
      beforeInRange solution added
    exact front.mem_iff.mpr
      ⟨place, within, lt_of_le_of_lt (not_lt.mp notLater) less⟩

theorem Offends.unique {other : TypeError}
    (offends : view.Offends catalog target known position error)
    (offendsToo : view.Offends catalog target known position other) :
    error = other := by
  cases offends with
  | identity meets found _ =>
      cases offendsToo with
      | identity meetsToo _ _ =>
          obtain ⟨rfl, rfl, rfl⟩ := meets.unique meetsToo
          rfl
      | parameter _ _ meetsToo _ =>
          obtain ⟨_, rfl, _⟩ := meets.unique meetsToo
          cases found
  | parameter begins least meets _ =>
      cases offendsToo with
      | identity meetsToo found _ =>
          obtain ⟨_, rfl, _⟩ := meets.unique meetsToo
          cases found
      | parameter beginsToo leastToo meetsToo _ =>
          obtain ⟨_, ⟨⟩, rfl⟩ := meets.unique meetsToo
          have same := le_antisymm (not_lt.mp (leastToo _ _ _ begins))
            (not_lt.mp (least _ _ _ beginsToo))
          subst same
          obtain ⟨_, _, rfl⟩ := begins.unique beginsToo
          rfl

end Offends

end Pattern

namespace Catalog

variable {catalog : Catalog} {known : Ty} {target : TypeId} {steps : List Step}

/-- The declared view, with variables for the parameters of the target. -/
def viewPattern (catalog : Catalog) (target ancestor : TypeId)
    (steps : List Step) : Pattern :=
  (catalog.declaredView target ancestor steps).evaluate catalog
    (Pattern.vars (catalog.arity target))

theorem viewPattern_id? (target ancestor : TypeId) (steps : List Step) :
    (catalog.viewPattern target ancestor steps).id? = some ancestor := by
  rw [viewPattern, declaredView, Term.evaluate_apply_pattern,
    Pattern.id?_application]

theorem viewPattern_args (sound : catalog.Sound)
    (chain : catalog.Chain target steps known.id) :
    (catalog.viewPattern target known.id steps).args =
      catalog.viewPatterns target steps := by
  rw [viewPattern, declaredView, Term.evaluate_apply_pattern,
    Pattern.args_application, viewPatterns_eq_map sound chain]

theorem viewPattern_sits (sound : catalog.Sound)
    (closed : ∀ id, ∀ parent ∈ catalog.parents id,
      parent.term.AllClosed (Ty.Belongs catalog))
    (chain : catalog.Chain target steps known.id)
    (declared : catalog.contains known.id = true) :
    (catalog.viewPattern target known.id steps).Sits catalog
      (catalog.arity target) := by
  refine .evaluate (declaredView_wellFormed sound chain declared) (.apply ?_)
  exact composeArgs_allClosed (chain.args_allClosed closed)
    (ownParams_allClosed _ target)

section Failure

variable (sound : catalog.Sound)
  (closed : ∀ id, ∀ parent ∈ catalog.parents id,
    parent.term.AllClosed (Ty.Belongs catalog))
  (path : catalog.path target known.id = some steps)
  (belongs : known.Belongs catalog)

include sound closed path belongs

theorem locates_viewFindings :
    Locates ((catalog.viewPattern target known.id steps).Within catalog
        (catalog.params target) known)
      (catalog.viewFindings known target steps) := by
  have chain := path_chain path
  rw [viewFindings, ← viewPattern_args sound chain]
  exact Pattern.locates_findings_args
    (viewPattern_sits sound closed chain belongs.here.declared) belongs
    (viewPattern_id? _ _ _)

theorem viewFindings_inRange :
    Solution.InRange
      (List.replicate (catalog.arity target) (none : Option Ty)).length
      (catalog.viewFindings known target steps) := by
  intro index ty member
  obtain ⟨position, place, part, nested, meets, tells⟩ :=
    (locates_viewFindings sound closed path belongs).mem_iff.mp member
  cases tells
  cases meets.sits
    (viewPattern_sits sound closed (path_chain path) belongs.here.declared) with
  | var bound => exact List.length_replicate.symm ▸ bound

theorem infer_error_iff_first_offence
    (declared : catalog.contains target = true) (error : TypeError) :
    catalog.infer known target = .error error ↔
      ∃ position, (catalog.viewPattern target known.id steps).Offends catalog
          ⟨catalog.name target, catalog.params target⟩ known position error ∧
        ∀ other earlier,
          (catalog.viewPattern target known.id steps).Offends catalog
          ⟨catalog.name target, catalog.params target⟩ known other earlier →
            ¬other < position := by
  have locates := locates_viewFindings sound closed path belongs
  have inRange := viewFindings_inRange sound closed path belongs
  have first : ∀ error, catalog.infer known target = .error error → _ :=
    fun error failed =>
      Pattern.exists_first_offence locates inRange
        (Solution.value?_replicate_none _)
        ((infer_eq_error_iff path declared error).mp failed)
  constructor
  · exact first error
  · rintro ⟨position, offends, least⟩
    cases inferred : catalog.infer known target with
    | ok result =>
        obtain ⟨solution, added, _⟩ :=
          (infer_eq_ok_iff path declared result).mp inferred
        refine absurd added
          (offends.not_foldlM_ok (fun other finding _ within => ?_) inRange
            solution)
        exact locates.mem_iff.mpr ⟨other, within⟩
    | error found =>
        obtain ⟨place, offendsToo, leastToo⟩ := first found inferred
        have same : position = place :=
          le_antisymm (not_lt.mp (least _ _ offendsToo))
            (not_lt.mp (leastToo _ _ offends))
        subst same
        rw [offends.unique offendsToo]

theorem exists_infer_error_iff (declared : catalog.contains target = true) :
    (∃ error, catalog.infer known target = .error error) ↔
      (∃ position place part nested id,
        (catalog.viewPattern target known.id steps).Meets known position place
            part nested ∧
          part.id? = some id ∧ id ≠ nested.id) ∨
      ∃ position place other again index first second,
        (catalog.viewPattern target known.id steps).Meets known position place
          (.var index) first ∧
        (catalog.viewPattern target known.id steps).Meets known other again
          (.var index) second ∧
        (first == second) = false := by
  have locates := locates_viewFindings sound closed path belongs
  have inRange := viewFindings_inRange sound closed path belongs
  constructor
  · rintro ⟨error, failed⟩
    obtain ⟨position, offends, _⟩ :=
      (infer_error_iff_first_offence sound closed path belongs declared
        error).mp failed
    cases offends with
    | identity meets found different =>
        exact .inl ⟨_, _, _, _, _, meets, found, different⟩
    | parameter begins _ meets different =>
        exact .inr ⟨_, _, _, _, _, _, _, begins, meets, different⟩
  · intro offence
    cases inferred : catalog.infer known target with
    | error error => exact ⟨error, rfl⟩
    | ok result =>
        obtain ⟨solution, added, _⟩ :=
          (infer_eq_ok_iff path declared result).mp inferred
        rcases offence with
          ⟨position, place, part, nested, id, meets, found, different⟩ |
          ⟨position, place, other, again, index, first, second, left, right,
            different⟩
        · have member :=
            locates.mem_iff.mpr
              ⟨position, _, _, _, meets, .conflict found different⟩
          exact absurd member (Solution.noConflict_of_foldlM added _)
        · have same := Solution.beq_of_equations inRange added
            (locates.mem_iff.mpr ⟨position, _, _, _, left, .equation⟩)
            (locates.mem_iff.mpr ⟨other, _, _, _, right, .equation⟩)
          rw [same] at different
          cases different

end Failure

end Catalog

namespace Registry

/-- Inference of a descendant fails exactly where the declared view and the
known type, compared position by position, have different identities somewhere,
or where one parameter stands opposite to types that are not equal.  The error
is that of the first position, from left to right and from the top down, at
which one of the two is the case. -/
theorem infer_error_iff {registry : Registry} (grown : registry.Grown)
    {known : Ty} (belongs : known.Belongs registry.catalog) {target : TypeId}
    {steps : List Step} (declared : registry.catalog.contains target = true)
    (path : registry.catalog.path target known.id = some steps) :
    let catalog := registry.catalog
    let view := catalog.viewPattern target known.id steps
    let offends :=
      view.Offends catalog ⟨catalog.name target, catalog.params target⟩ known
    ((∃ error, catalog.infer known target = .error error) ↔
      (∃ position place part nested id,
        view.Meets known position place part nested ∧
        part.id? = some id ∧ id ≠ nested.id) ∨
      ∃ position place other again index first second,
        view.Meets known position place (.var index) first ∧
        view.Meets known other again (.var index) second ∧
          (first == second) = false) ∧
    ∀ error, catalog.infer known target = .error error ↔
      ∃ position, offends position error ∧
        ∀ other earlier, offends other earlier → ¬other < position :=
  ⟨Catalog.exists_infer_error_iff grown.reachable.sound grown.parents_belong
      path belongs declared,
    Catalog.infer_error_iff_first_offence grown.reachable.sound
      grown.parents_belong path belongs declared⟩

open Collections in
/-- The rows of a grid cannot be both strings and lists of strings.  Nothing
comes before the position of the lists, which is the second one at which
there are rows. -/
theorem infer_error_iff_grid :
    ∃ steps position,
      (registry.catalog.viewPattern 4 2 steps).Offends registry.catalog
        ⟨"Grid", ["R", "C"]⟩ (map string (list (list string))) position
        (.parameterConflict "Grid" "R" "String" "List<String>") ∧
      ∀ other earlier,
        (registry.catalog.viewPattern 4 2 steps).Offends registry.catalog
          ⟨"Grid", ["R", "C"]⟩
          (map string (list (list string))) other earlier →
            ¬other < position := by
  have belongs :
      (map string (list (list string))).Belongs registry.catalog := by
    refine map_belongs ?_ ?_
    · rintro _ ⟨⟩
      exact string_belongs
    · rintro _ ⟨⟩
      refine list_belongs ?_
      rintro _ ⟨⟩
      refine list_belongs ?_
      rintro _ ⟨⟩
      exact string_belongs
  have declared : registry.catalog.contains 4 = true := rfl
  have path : registry.catalog.path 4 2 =
      some [⟨.interface 0, ⟨2, [.slot 0, .apply 1 [.slot 0]]⟩⟩] :=
    rfl
  have failed : registry.catalog.infer (map string (list (list string))) 4 =
      .error (.parameterConflict "Grid" "R" "String" "List<String>") := rfl
  exact ⟨_, ((infer_error_iff grown belongs declared path).2 _).mp failed⟩

end Registry

end NominalTypes
