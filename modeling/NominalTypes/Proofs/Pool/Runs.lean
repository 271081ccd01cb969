import NominalTypes.Proofs.Pool.Answers
import NominalTypes.Proofs.Pool.Growth

namespace NominalTypes

/-! Runs of requests, step by step. -/

/-! Types from the shelf. -/

namespace Draft

@[induction_eliminator]
theorem induction {motive : Draft → Prop} (slot : ∀ index, motive (.slot index))
    (held : ∀ place, motive (.held place))
    (apply : ∀ id args, (∀ arg ∈ args, motive arg) → motive (.apply id args))
    (draft : Draft) : motive draft :=
  Draft.rec (motive_1 := motive)
    (motive_2 := fun args => ∀ arg ∈ args, motive arg)
    slot held apply (fun _ member => nomatch member)
    (fun _ _ first others arg member => by
      rcases List.mem_cons.mp member with rfl | later
      · exact first
      · exact others arg later)
    draft

theorem terms_eq_mapM (shelf : List Ty) (args : List Draft) :
    terms shelf args = args.mapM (term shelf) := by
  induction args with
  | nil => rfl
  | cons arg rest ih => rw [terms, ih, List.mapM_cons]

end Draft

theorem mapM_eq_map_mapM {α β γ : Type} {f : α → Option β} {g : α → Option γ}
    {image : β → γ} {list : List α} (each : ∀ a ∈ list, g a = (f a).map image) :
    list.mapM g = (list.mapM f).map (List.map image) := by
  induction list with
  | nil => rfl
  | cons head tail ih =>
      rw [List.mapM_cons, List.mapM_cons, each head List.mem_cons_self,
        ih fun a member => each a (List.mem_cons_of_mem _ member)]
      cases f head with
      | none => rfl
      | some first => cases tail.mapM f <;> rfl

theorem exists_of_mem_mapM {α β : Type} {f : α → Option β} {list : List α}
    {found : List β} (mapped : list.mapM f = some found) :
    ∀ b ∈ found, ∃ a ∈ list, f a = some b := by
  induction list generalizing found with
  | nil =>
      cases mapped
      exact nofun
  | cons head tail ih =>
      rw [List.mapM_cons] at mapped
      obtain ⟨first, atHead, mapped⟩ := Option.bind_eq_some_iff.mp mapped
      obtain ⟨others, inTail, equality⟩ := Option.bind_eq_some_iff.mp mapped
      cases equality
      intro b member
      rcases List.mem_cons.mp member with rfl | later
      · exact ⟨head, List.mem_cons_self, atHead⟩
      · obtain ⟨a, aMember, image⟩ := ih inTail b later
        exact ⟨a, List.mem_cons_of_mem _ aMember, image⟩

theorem Draft.term_bare (shelf : List Ty) (draft : Draft) :
    draft.term (shelf.map Ty.bare) = (draft.term shelf).map Term.bare := by
  induction draft with
  | slot index => rfl
  | held place =>
      rw [term, term, List.getElem?_map]
      cases shelf[place]? <;> rfl
  | apply id args ih =>
      rw [term, term, terms_eq_mapM, terms_eq_mapM, mapM_eq_map_mapM ih]
      cases args.mapM (term shelf) with
      | none => rfl
      | some terms =>
          exact congrArg some (Term.rename_apply (fun id => id) id terms).symm

theorem Draft.terms_bare (shelf : List Ty) (args : List Draft) :
    terms (shelf.map Ty.bare) args =
      (terms shelf args).map (List.map Term.bare) := by
  rw [terms_eq_mapM, terms_eq_mapM]
  exact mapM_eq_map_mapM fun arg _ => arg.term_bare shelf

theorem Draft.term_allClosed {property : Ty → Prop} {shelf : List Ty}
    (holds : ∀ ty ∈ shelf, property ty) {draft : Draft} {term : Term}
    (taken : draft.term shelf = some term) : term.AllClosed property := by
  induction draft generalizing term with
  | slot index =>
      cases taken
      exact .slot index
  | held place =>
      obtain ⟨ty, found, rfl⟩ := Option.map_eq_some_iff.mp taken
      exact .closed (holds ty (List.mem_of_getElem? found))
  | apply id args ih =>
      obtain ⟨terms, found, rfl⟩ := Option.map_eq_some_iff.mp taken
      rw [terms_eq_mapM] at found
      refine .apply fun arg member => ?_
      obtain ⟨draft, draftMember, taken⟩ := exists_of_mem_mapM found arg member
      exact ih draft draftMember taken

theorem Draft.terms_allClosed {property : Ty → Prop} {shelf : List Ty}
    (holds : ∀ ty ∈ shelf, property ty) (parent : TypeId) {args : List Draft}
    {terms : List Term} (taken : Draft.terms shelf args = some terms) :
    (Parent.mk parent terms).term.AllClosed property := by
  have whole : (Draft.apply parent args).term shelf =
      some (.apply parent terms) := by
    rw [term, taken]
    rfl
  exact term_allClosed holds whole

namespace Question

variable {α β γ : Type}

theorem replace_eq_map {f : α → Option β} {g : α → Option γ} {image : β → γ}
    (each : ∀ a, g a = (f a).map image) (question : Question α) :
    question.replace g = (question.replace f).map (map image) := by
  cases question with
  | resolve id args =>
      rw [replace, replace, mapM_eq_map_mapM fun a _ => each a]
      cases args.mapM f <;> rfl
  | resolveRaw id => rfl
  | clear => rfl
  | same ty other =>
      rw [replace, replace, each, each]
      cases f ty with
      | none => rfl
      | some first => cases f other <;> rfl
  | infer ty target | viewAs ty target | slotsAs ty target
  | parentAlong ty target | slot ty target =>
      rw [replace, replace, each]
      cases f ty <;> rfl
  | superclass ty | interfaces ty | ancestors ty | brief ty | signature ty
  | fullDescription ty =>
      rw [replace, replace, each]
      cases f ty <;> rfl

theorem exists_of_mem_replace {f : α → Option β} {question : Question α}
    {replaced : Question β} (found : question.replace f = some replaced) :
    ∀ b ∈ replaced.types, ∃ a, f a = some b := by
  cases question with
  | resolve id args =>
      obtain ⟨images, mapped, equality⟩ := Option.bind_eq_some_iff.mp found
      cases equality
      intro b member
      obtain ⟨a, _, image⟩ := exists_of_mem_mapM mapped b member
      exact ⟨a, image⟩
  | resolveRaw id | clear =>
      cases found
      exact nofun
  | same ty other =>
      obtain ⟨first, left, found⟩ := Option.bind_eq_some_iff.mp found
      obtain ⟨second, right, equality⟩ := Option.bind_eq_some_iff.mp found
      cases equality
      intro b member
      rcases List.mem_cons.mp member with rfl | member
      · exact ⟨ty, left⟩
      · exact ⟨other, List.mem_singleton.mp member ▸ right⟩
  | infer ty target | viewAs ty target | slotsAs ty target
  | parentAlong ty target | slot ty target =>
      obtain ⟨image, taken, equality⟩ := Option.bind_eq_some_iff.mp found
      cases equality
      exact fun b member => ⟨ty, List.mem_singleton.mp member ▸ taken⟩
  | superclass ty | interfaces ty | ancestors ty | brief ty | signature ty
  | fullDescription ty =>
      obtain ⟨image, taken, equality⟩ := Option.bind_eq_some_iff.mp found
      cases equality
      exact fun b member => ⟨ty, List.mem_singleton.mp member ▸ taken⟩

end Question

theorem Answer.held_bare (answer : Answer) :
    answer.bare.held = answer.held.map Ty.bare := by
  cases answer with
  | types found =>
      rw [bare, held, held, List.filterMap_map, List.map_filterMap]
      rfl
  | _ => rfl

/-! One request. -/

namespace Scene

def bare (scene : Scene) : Scene :=
  ⟨scene.registry.bare, scene.shelf.map Ty.bare⟩

/-- A pool that is faithful to the declarations, and has handed out the types
on the shelf. -/
structure ServedBy (scene : Scene) (values : List Ty) (pool : Pool) : Prop where
  faithful : pool.Faithful scene.registry.catalog values
  shelf : ∀ ty ∈ scene.shelf, ty.Genuine scene.registry.catalog values

/-- As `perform`, with every answer computed anew. -/
def recompute (scene : Scene) (request : Request) : Answer × Scene :=
  Id.run (scene.perform
    (fun catalog question => pure (catalog.answer question)) request)

variable {scene : Scene} {values : List Ty} {pool : Pool}

theorem ServedBy.settle (served : scene.ServedBy values pool)
    {outcome : Except LinkError Registry}
    (linked : ∀ registry, outcome = .ok registry → ∃ owner parent,
      scene.registry.catalog.Linked registry.catalog owner parent ∧
        registry.catalog.generation = scene.registry.catalog.generation + 1 ∧
        parent.term.AllClosed (Ty.Genuine scene.registry.catalog values)) :
    (scene.settle outcome).2.ServedBy values pool ∧
      scene.bare.settle (outcome.map Registry.bare) =
        ((scene.settle outcome).1.bare, (scene.settle outcome).2.bare) := by
  cases outcome with
  | error error => exact ⟨served, rfl⟩
  | ok registry =>
      obtain ⟨owner, parent, linked, advanced, closed⟩ := linked registry rfl
      refine ⟨⟨served.faithful.of_linked linked advanced closed,
        fun ty member => ?_⟩, rfl⟩
      exact (served.shelf ty member).mono linked.extension List.prefix_rfl

theorem ServedBy.perform (served : scene.ServedBy values pool)
    (request : Request) :
    ∃ more, values <+: more ∧
      ((scene.perform Pool.answer request).run pool).1.2.ServedBy more
        ((scene.perform Pool.answer request).run pool).2 ∧
      scene.bare.recompute request =
        (((scene.perform Pool.answer request).run pool).1.1.bare,
          ((scene.perform Pool.answer request).run pool).1.2.bare) := by
  cases request with
  | declare kind name params =>
      have extension := Catalog.extends_add scene.registry.catalog
        ⟨kind, name, params.length, params, none, []⟩
      refine ⟨values, List.prefix_rfl,
        ⟨served.faithful.add rfl rfl, fun ty member => ?_⟩, ?_⟩
      · exact (served.shelf ty member).mono extension List.prefix_rfl
      · have declared := scene.registry.declare_bare kind name params
        change (Answer.declared (scene.registry.bare.declare kind name params).1,
          Scene.mk (scene.registry.bare.declare kind name params).2
            (scene.shelf.map Ty.bare)) = _
        rw [declared]
        rfl
  | setSuperclass owner parent args =>
      have taken := Draft.terms_bare scene.shelf args
      rw [recompute, Scene.perform, Scene.perform, bare, taken]
      cases found : Draft.terms scene.shelf args with
      | none => exact ⟨values, List.prefix_rfl, served, rfl⟩
      | some terms =>
          have closed := Draft.terms_allClosed served.shelf parent found
          obtain ⟨servedAfter, same⟩ := served.settle fun registry accepted =>
            ⟨owner, ⟨parent, terms⟩, Registry.linked_of_setSuperclass accepted,
              Registry.generation_of_setSuperclass accepted, closed⟩
          rw [← Registry.setSuperclass_bare] at same
          exact ⟨values, List.prefix_rfl, servedAfter, same⟩
  | addInterface owner parent args =>
      have taken := Draft.terms_bare scene.shelf args
      rw [recompute, Scene.perform, Scene.perform, bare, taken]
      cases found : Draft.terms scene.shelf args with
      | none => exact ⟨values, List.prefix_rfl, served, rfl⟩
      | some terms =>
          have closed := Draft.terms_allClosed served.shelf parent found
          obtain ⟨servedAfter, same⟩ := served.settle fun registry accepted =>
            ⟨owner, ⟨parent, terms⟩, Registry.linked_of_addInterface accepted,
              Registry.generation_of_addInterface accepted, closed⟩
          rw [← Registry.addInterface_bare] at same
          exact ⟨values, List.prefix_rfl, servedAfter, same⟩
  | ask question =>
      have taken : (question.replace fun place => scene.bare.shelf[place]?) =
          (question.replace fun place => scene.shelf[place]?).map
              (Question.map Ty.bare) :=
        Question.replace_eq_map (fun place => List.getElem?_map) question
      rw [recompute, Scene.perform, Scene.perform, taken]
      cases found : question.replace fun place => scene.shelf[place]? with
      | none => exact ⟨values, List.prefix_rfl, served, rfl⟩
      | some question =>
          have genuine : ∀ ty ∈ question.types,
              ty.Genuine scene.registry.catalog values := by
            intro ty member
            obtain ⟨place, stands⟩ :=
              Question.exists_of_mem_replace found ty member
            exact served.shelf ty (List.mem_of_getElem? stands)
          obtain ⟨more, longer, faithful, held, same⟩ :=
            Pool.yields_answer genuine pool served.faithful
          refine ⟨more, longer, ⟨faithful, fun ty member => ?_⟩, ?_⟩
          · rcases List.mem_append.mp member with old | new
            · exact (served.shelf ty old).mono (.refl _) longer
            · exact held ty new
          · change (scene.registry.catalog.bare.answer (question.map Ty.bare),
              Scene.mk scene.registry.bare (scene.shelf.map Ty.bare ++
                (scene.registry.catalog.bare.answer (question.map Ty.bare)).held)) = _
            rw [← same, Answer.held_bare, ← List.map_append]
            rfl

/-! Runs. -/

/-- As `performAll`, with all the answers computed anew. -/
def recomputeAll (scene : Scene) (requests : List Request) :
    List Answer × Scene :=
  Id.run (scene.performAll
    (fun catalog question => pure (catalog.answer question)) requests)

theorem recomputeAll_cons (scene : Scene) (request : Request)
    (rest : List Request) :
    scene.recomputeAll (request :: rest) =
      ((scene.recompute request).1 ::
          ((scene.recompute request).2.recomputeAll rest).1,
        ((scene.recompute request).2.recomputeAll rest).2) := rfl

theorem ServedBy.performAll (served : scene.ServedBy values pool)
    (requests : List Request) :
    ∃ more, values <+: more ∧
      ((scene.performAll Pool.answer requests).run pool).1.2.ServedBy more
        ((scene.performAll Pool.answer requests).run pool).2 ∧
      scene.bare.recomputeAll requests =
        (((scene.performAll Pool.answer requests).run pool).1.1.map Answer.bare,
          ((scene.performAll Pool.answer requests).run pool).1.2.bare) := by
  -- Each request may change the declarations, the shelf and the pool that
  -- the others meet.
  induction requests generalizing scene values pool with
  | nil => exact ⟨values, List.prefix_rfl, served, rfl⟩
  | cons request rest ih =>
      obtain ⟨more, longer, servedNext, same⟩ := served.perform request
      obtain ⟨most, longest, servedLast, sameRest⟩ := ih servedNext
      refine ⟨most, longer.trans longest, servedLast, ?_⟩
      rw [recomputeAll_cons, same, sameRest]
      rfl

theorem bare_empty : empty.bare = empty := by
  simp [bare, empty, Registry.bare, Registry.empty, Catalog.bare, Catalog.empty]

theorem servedBy_empty (memoize tracing : Bool) :
    empty.ServedBy [] (.empty memoize tracing) := by
  refine ⟨⟨⟨Catalog.sound_empty _, Catalog.allClosed_empty _ _⟩, rfl,
      List.forall_mem_nil _, ?_, ?_⟩,
    List.forall_mem_nil _⟩
  · intro handle entry found
    simp [Pool.empty] at found
  · intro handle entry found
    simp [Pool.empty] at found

end Scene

end NominalTypes
