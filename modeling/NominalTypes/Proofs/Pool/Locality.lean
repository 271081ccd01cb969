import NominalTypes.Proofs.Inference.Locality
import NominalTypes.Proofs.Pool.WellFormed
import NominalTypes.Proofs.Registry.Locality

namespace NominalTypes

/-! A new parent, or a new declaration, changes no answers but those about what
comes below it. -/

namespace Question

variable {α : Type}

/-- The identities that the question names. -/
def ids : Question Ty → List TypeId
  | .resolve id _ | .resolveRaw id => [id]
  | .infer _ target => [target]
  | .viewAs ty target | .slotsAs ty target => [ty.id, target]
  | .superclass ty | .interfaces ty | .parentAlong ty _ => [ty.id]
  | .ancestors ty | .fullDescription ty => [ty.id]
  | .slot .. | .brief _ | .signature _ | .same .. | .clear => []

/-- The identity from which the answer looks upwards. -/
def origin? : Question Ty → Option TypeId
  | .infer _ target => some target
  | .viewAs ty _ | .slotsAs ty _ => some ty.id
  | .superclass ty | .interfaces ty | .parentAlong ty _ => some ty.id
  | .ancestors ty | .fullDescription ty => some ty.id
  | .resolve .. | .resolveRaw _ | .slot .. | .brief _ | .signature _ | .same ..
  | .clear => none

/-- The question looks upwards from outside of all that a new parent of the
owner is above.  Where nothing gets a parent, something may be declared, and the
question is about identities that are declared already. -/
def SparedBy (catalog : Catalog) (question : Question Ty) : Option TypeId → Prop
  | some owner =>
      ∀ origin ∈ question.origin?, ¬ catalog.DerivesFrom origin owner
  | none => ∀ id ∈ question.ids, catalog.contains id = true

theorem ids_map_bare (question : Question Ty) :
    (question.map Ty.bare).ids = question.ids := by
  cases question <;> simp [map, ids, Ty.bare]

theorem origin?_map_bare (question : Question Ty) :
    (question.map Ty.bare).origin? = question.origin? := by
  cases question <;> simp [map, origin?, Ty.bare]

end Question

namespace Catalog

variable {before after : Catalog}

theorem view_eq {ty : Ty} {target : TypeId}
    (same : before.SameAbove after ty.id) (alike : before.Alike after target) :
    after.view ty target = before.view ty target := by
  rw [view, view, same.viewAs, alike.name]

theorem answer_eq {question : Question Ty}
    (same : ∀ origin ∈ question.origin?, before.SameAbove after origin)
    (alike : ∀ id ∈ question.ids, before.Alike after id) :
    after.answer question = before.answer question := by
  cases question with
  | resolve id args =>
      have alike := alike id List.mem_cons_self
      simp only [answer, resolve, bindSlots, alike.contains, alike.name,
        alike.arity]
  | resolveRaw id =>
      have alike := alike id List.mem_cons_self
      simp only [answer, resolveRaw, raw, alike.contains, alike.name,
        alike.arity]
  | infer known target =>
      rw [answer, answer, (same target rfl).infer (alike target List.mem_cons_self)]
  | viewAs ty target | slotsAs ty target =>
      have alike := alike target (List.mem_cons_of_mem _ List.mem_cons_self)
      rw [answer, answer, view_eq (same ty.id rfl) alike]
  | superclass ty | interfaces ty | parentAlong ty edge =>
      rw [answer, answer, (same ty.id rfl).parentTypes]
  | ancestors ty => rw [answer, answer, (same ty.id rfl).ancestors]
  | fullDescription ty =>
      rw [answer, answer,
        (same ty.id rfl).fullDescription (alike ty.id List.mem_cons_self)]
  | slot | brief | signature | same | clear => rfl

end Catalog

namespace Request

/-- The type that the request gives a parent. -/
def owner? : Request → Option TypeId
  | .declare .. | .ask _ => none
  | .setSuperclass owner .. => some owner
  | .addInterface owner .. => some owner

/-- What the request does to the declarations. -/
def change? (shelf : List Ty) : Request → Option Change
  | .declare kind name params => some (.declare kind name params)
  | .setSuperclass owner parent args =>
    (Draft.terms shelf args).map fun args => .setSuperclass owner ⟨parent, args⟩
  | .addInterface owner parent args =>
    (Draft.terms shelf args).map fun args => .addInterface owner ⟨parent, args⟩
  | .ask _ => none

theorem owner?_of_change? {shelf : List Ty} {request : Request}
    {change : Change} (changes : request.change? shelf = some change) :
    change.owner? = request.owner? := by
  cases request with
  | declare => cases changes; rfl
  | setSuperclass | addInterface =>
      obtain ⟨_, _, rfl⟩ := Option.map_eq_some_iff.mp changes
      rfl
  | ask => cases changes

end Request

namespace Scene

/-- The declarations after a request. -/
def registryAfter (scene : Scene) (request : Request) : Registry :=
  match request.change? scene.shelf with
  | some change => scene.registry.apply change
  | none => scene.registry

theorem registry_settle (scene : Scene) (link : Link) :
    (scene.settle (scene.registry.link link)).2.registry =
      scene.registry.apply link.change := by
  rw [Registry.apply_change]
  cases scene.registry.link link <;> rfl

section Perform

variable {m : Type → Type} [Monad m] {ask : Catalog → Question Ty → m Answer}
  (observe : m (Answer × Scene) → Answer × Scene)

/-- However questions are answered, the declarations become the same. -/
theorem registry_observe (scene : Scene)
    (observes : ∀ outcome, observe (pure outcome) = outcome)
    (asks : ∀ asked, (observe do
      let answer ← ask scene.registry.catalog asked
      return (answer, { scene with shelf := scene.shelf ++ answer.held })).2.registry =
        scene.registry) (request : Request) :
    (observe (scene.perform ask request)).2.registry =
      scene.registryAfter request := by
  cases request with
  | declare => rw [perform, observes]; rfl
  | setSuperclass owner parent args =>
      rw [perform, registryAfter, Request.change?]
      cases Draft.terms scene.shelf args with
      | none => rw [observes]; rfl
      | some terms =>
          rw [observes]
          exact registry_settle scene ⟨owner, true, ⟨parent, terms⟩⟩
  | addInterface owner parent args =>
      rw [perform, registryAfter, Request.change?]
      cases Draft.terms scene.shelf args with
      | none => rw [observes]; rfl
      | some terms =>
          rw [observes]
          exact registry_settle scene ⟨owner, false, ⟨parent, terms⟩⟩
  | ask question =>
      rw [perform]
      cases question.replace fun place => scene.shelf[place]? with
      | none => rw [observes]; rfl
      | some asked => exact asks asked

end Perform

theorem registry_recompute (scene : Scene) (request : Request) :
    (scene.recompute request).2.registry = scene.registryAfter request :=
  registry_observe Id.run scene (fun _ => rfl) (fun _ => rfl) request

theorem registry_perform (scene : Scene) (pool : Pool) (request : Request) :
    ((scene.perform Pool.answer request).run pool).1.2.registry =
      scene.registryAfter request :=
  registry_observe (fun action : PoolM (Answer × Scene) => (action.run pool).1)
    scene (fun _ => rfl) (fun _ => rfl) request

variable {scene : Scene} {request : Request}

theorem sound_registryAfter (sound : scene.registry.catalog.Sound)
    (request : Request) : (scene.registryAfter request).catalog.Sound := by
  rw [registryAfter]
  split
  · exact Registry.sound_apply sound _
  · exact sound

theorem sound_recomputeAll (sound : scene.registry.catalog.Sound)
    (requests : List Request) :
    (scene.recomputeAll requests).2.registry.catalog.Sound := by
  induction requests generalizing scene with
  | nil => exact sound
  | cons request rest ih =>
      rw [recomputeAll_cons]
      refine ih ?_
      rw [registry_recompute]
      exact sound_registryAfter sound request

theorem derivesFrom_registryAfter {id ancestor : TypeId}
    (derived : scene.registry.catalog.DerivesFrom id ancestor)
    (request : Request) :
    (scene.registryAfter request).catalog.DerivesFrom id ancestor := by
  rw [registryAfter]
  split
  · exact Registry.derivesFrom_apply _ derived
  · exact derived

theorem sameAbove_registryAfter (sound : scene.registry.catalog.Sound)
    {origin : TypeId}
    (apart : ∀ owner ∈ request.owner?,
      ¬ scene.registry.catalog.DerivesFrom origin owner) :
    scene.registry.catalog.SameAbove (scene.registryAfter request).catalog
      origin := by
  rw [registryAfter]
  split
  · rename_i change changes
    exact Registry.sameAbove_apply sound
      change (Request.owner?_of_change? changes ▸ apart)
  · exact .refl sound origin

theorem alike_registryAfter {id : TypeId}
    (declared : request.owner? = none →
      scene.registry.catalog.contains id = true) :
    scene.registry.catalog.Alike (scene.registryAfter request).catalog id := by
  rw [registryAfter]
  split
  · rename_i change changes
    exact Registry.alike_apply change (Request.owner?_of_change? changes ▸ declared)
  · exact .refl _ id

theorem answer_registryAfter (sound : scene.registry.catalog.Sound)
    {question : Question Ty}
    (spared : question.SparedBy scene.registry.catalog request.owner?) :
    (scene.registryAfter request).catalog.answer question =
      scene.registry.catalog.answer question := by
  refine Catalog.answer_eq (fun origin looks => ?_) (fun id named => ?_)
  · refine sameAbove_registryAfter sound fun owner owns => ?_
    rw [Option.mem_def.mp owns] at spared
    exact spared origin looks
  · refine alike_registryAfter fun none => ?_
    rw [none] at spared
    exact spared id named

end Scene

/-! The pool. -/

namespace Question

theorem sparedBy_bare {catalog : Catalog} {question : Question Ty}
    {owner? : Option TypeId} (spared : question.SparedBy catalog owner?) :
    (question.map Ty.bare).SparedBy catalog.bare owner? := by
  cases owner? with
  | none =>
      intro id named
      rw [catalog.contains_bare]
      exact spared id (question.ids_map_bare ▸ named)
  | some owner =>
      intro origin looks below
      rw [← Catalog.derives_iff, catalog.renames_bare.derives,
        Catalog.derives_iff] at below
      exact spared origin (question.origin?_map_bare ▸ looks) below

theorem mapM_mono {α β : Type} {f g : α → Option β}
    (more : ∀ a b, f a = some b → g a = some b) {list : List α} {found : List β}
    (mapped : list.mapM f = some found) : list.mapM g = some found := by
  induction list generalizing found with
  | nil => exact mapped
  | cons a list ih =>
      rw [List.mapM_cons] at mapped ⊢
      obtain ⟨head, atHead, mapped⟩ := Option.bind_eq_some_iff.mp mapped
      obtain ⟨tail, inTail, equality⟩ := Option.bind_eq_some_iff.mp mapped
      rw [more a head atHead, ih inTail]
      exact equality

theorem replace_mono {α β : Type} {f g : α → Option β}
    (more : ∀ a b, f a = some b → g a = some b) {question : Question α}
    {replaced : Question β} (found : question.replace f = some replaced) :
    question.replace g = some replaced := by
  cases question with
  | resolve id args =>
      obtain ⟨images, mapped, equality⟩ := Option.bind_eq_some_iff.mp found
      rw [replace, mapM_mono more mapped]
      exact equality
  | resolveRaw | clear => exact found
  | same ty other =>
      obtain ⟨first, left, found⟩ := Option.bind_eq_some_iff.mp found
      obtain ⟨second, right, equality⟩ := Option.bind_eq_some_iff.mp found
      rw [replace, more _ _ left, more _ _ right]
      exact equality
  | infer ty target | viewAs ty target | slotsAs ty target
  | parentAlong ty target | slot ty target =>
      obtain ⟨image, taken, equality⟩ := Option.bind_eq_some_iff.mp found
      rw [replace, more _ _ taken]
      exact equality
  | superclass ty | interfaces ty | ancestors ty | brief ty | signature ty
  | fullDescription ty =>
      obtain ⟨image, taken, equality⟩ := Option.bind_eq_some_iff.mp found
      rw [replace, more _ _ taken]
      exact equality

end Question

namespace Scene

variable {scene : Scene} {values : List Ty} {pool : Pool}

theorem recompute_ask {question : Question Nat} {asked : Question Ty}
    (found : question.replace (fun place => scene.shelf[place]?) = some asked) :
    (scene.recompute (.ask question)).1 =
      scene.registry.catalog.answer asked := by
  rw [recompute, perform, found]
  rfl

theorem replace_bare {question : Question Nat} {asked : Question Ty}
    (found : question.replace (fun place => scene.shelf[place]?) = some asked) :
    question.replace (fun place => scene.bare.shelf[place]?) =
      some (asked.map Ty.bare) := by
  rw [bare, Question.replace_eq_map (fun place => List.getElem?_map) question, found]
  rfl

theorem replace_perform {question : Question Nat} {asked : Question Ty}
    (found : question.replace (fun place => scene.shelf[place]?) = some asked)
    (request : Request) :
    question.replace (fun place =>
      ((scene.perform Pool.answer request).run pool).1.2.shelf[place]?) =
        some asked := by
  refine Question.replace_mono (fun place ty stands => ?_) found
  rw [shelf_perform,
    List.getElem?_append_left (List.getElem?_eq_some_iff.mp stands).1, stands]

/-- Between two times that a question is asked, the request changes nothing that
the answer is made of. -/
theorem ServedBy.bare_answer_again (served : scene.ServedBy values pool)
    (sound : scene.bare.registry.catalog.Sound) {question : Question Nat}
    {asked : Question Ty}
    (found : question.replace (fun place => scene.shelf[place]?) = some asked)
    {change : Request}
    (spared : asked.SparedBy scene.registry.catalog change.owner?) :
    ∃ first second third,
      ((scene.performAll Pool.answer [.ask question, change, .ask question]).run
          pool).1.1 =
        [first, second, third] ∧ third.bare = first.bare := by
  -- The answers may have other handles, so each is compared with what is
  -- computed from the bare scene.
  let next := (scene.perform Pool.answer (.ask question)).run pool
  let last := (next.1.2.perform Pool.answer change).run next.2
  obtain ⟨_, _, servedNext, first⟩ := served.perform (.ask question)
  obtain ⟨_, _, servedLast, second⟩ := servedNext.perform change
  obtain ⟨_, _, _, third⟩ := servedLast.perform (.ask question)
  have between : next.1.2.bare.registry = scene.bare.registry := by
    have kept := registry_recompute scene.bare (.ask question)
    rwa [first] at kept
  have after : last.1.2.bare.registry = next.1.2.bare.registryAfter change := by
    have changed := registry_recompute next.1.2.bare change
    rwa [second] at changed
  have again : question.replace (fun place => last.1.2.shelf[place]?) =
      some asked :=
    replace_perform (replace_perform found (.ask question)) change
  have same : last.1.2.bare.registry.catalog.answer (asked.map Ty.bare) =
      scene.bare.registry.catalog.answer (asked.map Ty.bare) := by
    rw [after, answer_registryAfter, between]
    · exact between ▸ sound
    · exact between ▸ Question.sparedBy_bare spared
  have firstAnswer := congrArg Prod.fst first
  have thirdAnswer := congrArg Prod.fst third
  rw [recompute_ask (replace_bare found)] at firstAnswer
  rw [recompute_ask (replace_bare again)] at thirdAnswer
  exact ⟨_, _, _, rfl, thirdAnswer.symm.trans (same.trans firstAnswer)⟩

end Scene

/-- After any requests, a request takes no ancestors away, and what it does not
give new ancestors has the old ones.  If it gives a type a parent, then all
answers about types that are not below that type stay as they are, and if it
declares a type, then so do all answers to questions that name declared types
only.  This holds of what is computed from the declarations, for any types
whatever, and also of what a pool answers that was asked before, although
nothing that it keeps from before a link is used again. -/
theorem Pool.answers_spared (memoize tracing : Bool) (requests : List Request)
    (change : Request) :
    let outcome :=
      (Scene.empty.performAll answer requests).run (.empty memoize tracing)
    let scene := outcome.1.2
    let before := scene.registry.catalog
    let after :=
      ((scene.perform answer change).run outcome.2).1.2.registry.catalog
    (∀ id ancestor, before.derives id ancestor = true →
        after.derives id ancestor = true) ∧
      (∀ id, (∀ owner ∈ change.owner?, before.derives id owner = false) →
        ∀ ancestor, after.derives id ancestor = before.derives id ancestor) ∧
      (∀ question : Question Ty, question.SparedBy before change.owner? →
        after.answer question = before.answer question) ∧
      ∀ (question : Question Nat) (asked : Question Ty),
        question.replace (fun place => scene.shelf[place]?) = some asked →
        asked.SparedBy before change.owner? →
        ∃ first second third,
          ((scene.performAll answer [.ask question, change, .ask question]).run
              outcome.2).1.1 =
            [first, second, third] ∧ third.bare = first.bare := by
  intro outcome scene before after
  obtain ⟨values, _, served, recomputed⟩ :=
    (Scene.servedBy_empty memoize tracing).performAll requests
  have sound : before.Sound := served.faithful.declarations.sound
  have soundBare : scene.bare.registry.catalog.Sound := by
    have kept :=
      @Scene.sound_recomputeAll .empty (Catalog.sound_empty _) requests
    rw [Scene.bare_empty] at recomputed
    rwa [recomputed] at kept
  have become : after = (scene.registryAfter change).catalog :=
    congrArg Registry.catalog (scene.registry_perform outcome.2 change)
  rw [become]
  refine ⟨fun id ancestor derived => ?_, fun id apart ancestor => ?_,
    fun question spared => ?_,
    fun question asked found spared =>
      served.bare_answer_again soundBare found spared⟩
  · rw [Catalog.derives_iff] at derived ⊢
    exact Scene.derivesFrom_registryAfter derived change
  · refine (Scene.sameAbove_registryAfter sound fun owner owns below =>
      ?_).derives ancestor
    exact absurd ((before.derives_iff id owner).mpr below)
      (by simp [apart owner owns])
  · exact Scene.answer_registryAfter sound spared

namespace Collections

/-- An array list is a list.  A stack is not one yet. -/
def listRequests : List Request :=
  [.declare .interfaceType "List" ["E"], .declare .classType "ArrayList" ["E"],
    .declare .classType "Stack" ["E"], .addInterface 2 1 [.slot 0],
    .ask (.resolveRaw 2)]

end Collections

open Collections in
theorem Pool.answers_spared_list :
    let outcome :=
      (Scene.empty.performAll answer listRequests).run (.empty true false)
    let change : Request := .addInterface 3 1 [.slot 0]
    let later :=
      (outcome.1.2.performAll answer
        [.ask (.ancestors 0), change, .ask (.ancestors 0)]).run outcome.2
    ∃ first second third, later.1.1 = [first, second, third] ∧
      second.bare = .linked ∧
      third.bare = first.bare ∧
        first.bare = .types [some ⟨1, "List", [none], none⟩] := by
  intro outcome change later
  obtain ⟨_, _, _, again⟩ := answers_spared true false listRequests change
  have separate : outcome.1.2.registry.catalog.derives 2 3 = false := by rfl
  have spared : (Question.ancestors ⟨2, "ArrayList", [none], some 0⟩).SparedBy
      outcome.1.2.registry.catalog change.owner? := by
    rintro origin ⟨⟩ below
    cases separate.symm.trans (Catalog.derives_iff _ _ |>.mpr below)
  obtain ⟨first, second, third, answered, same⟩ :=
    again (.ancestors 0) _ rfl spared
  have shown : later.1.1.map Answer.bare =
      [.types [some ⟨1, "List", [none], none⟩], .linked,
        .types [some ⟨1, "List", [none], none⟩]] := by rfl
  have answers : later.1.1 = [first, second, third] := answered
  rw [answers] at shown
  obtain ⟨firstShown, rest⟩ := List.cons.inj shown
  exact ⟨first, second, third, answers, (List.cons.inj rest).1,
    same, firstShown⟩

end NominalTypes
