import NominalTypes.Proofs.Pool.Genuine

namespace NominalTypes.Pool

/-! What a pool keeps is what would be computed anew. -/

/-- Everything that the pool hands out is genuine, and parents that were
computed in the generation of the catalog are the parents of the value for which
they are kept.  Of parents from earlier generations nothing is said: they may be
those of other declarations. -/
structure Faithful (catalog : Catalog) (values : List Ty)
    (pool : Pool) : Prop where
  declarations : catalog.Genuine values
  handles : pool.nextHandle = values.length
  remembered : ∀ ty ∈ pool.remembered, ty.Genuine catalog values
  generation : ∀ (handle : Nat) (entry : KeptParents),
    pool.kept[handle]? = some entry →
    entry.generation ≤ catalog.generation
  kept : ∀ (handle : Nat) (entry : KeptParents),
    pool.kept[handle]? = some entry →
    entry.generation = catalog.generation →
      (∀ parent ∈ entry.parents.toList, parent.Genuine catalog values) ∧
        ∃ value, values[handle]? = some value ∧
          entry.parents.bare = (catalog.parentTypes value).bare

/-- The computation keeps a pool faithful, while there may be more values, and
the postcondition holds of these and of what is computed. -/
def Yields (catalog : Catalog) {α : Type} (values : List Ty) (action : PoolM α)
    (post : List Ty → α → Prop) : Prop :=
  ∀ pool : Pool, pool.Faithful catalog values → ∃ more, values <+: more ∧
    (action.run pool).2.Faithful catalog more ∧ post more (action.run pool).1

variable {catalog : Catalog} {values : List Ty} {α β : Type}

namespace Yields

theorem of_pure {value : α} {post : List Ty → α → Prop}
    (holds : post values value) : Yields catalog values (pure value) post :=
  fun _ faithful => ⟨values, List.prefix_rfl, faithful, holds⟩

theorem bind {action : PoolM α} {rest : α → PoolM β}
    {between : List Ty → α → Prop} {post : List Ty → β → Prop}
    (first : Yields catalog values action between)
    (next : ∀ more, values <+: more → ∀ value, between more value →
      Yields catalog more (rest value) post) :
    Yields catalog values (action >>= rest) post := by
  intro pool faithful
  obtain ⟨more, longer, faithful, holds⟩ := first pool faithful
  obtain ⟨most, longest, faithful, holds⟩ := next more longer _ holds _ faithful
  exact ⟨most, longer.trans longest, faithful, holds⟩

theorem lift_bind {ε : Type} {action : PoolM α} {rest : α → ExceptT ε PoolM β}
    {between : List Ty → α → Prop} {post : List Ty → Except ε β → Prop}
    (first : Yields catalog values action between)
    (next : ∀ more, values <+: more → ∀ value, between more value →
      Yields catalog more (rest value).run post) :
    Yields catalog values
      ((liftM action : ExceptT ε PoolM α) >>= rest).run post :=
  first.bind next

theorem except_bind {ε : Type} {action : ExceptT ε PoolM α}
    {rest : α → ExceptT ε PoolM β} {between : List Ty → Except ε α → Prop}
    {post : List Ty → Except ε β → Prop}
    (first : Yields catalog values action.run between)
    (next : ∀ more, values <+: more → ∀ value, between more (.ok value) →
      Yields catalog more (rest value).run post)
    (fails : ∀ more, values <+: more → ∀ error, between more (.error error) →
      post more (.error error)) :
    Yields catalog values (action >>= rest).run post := by
  rw [ExceptT.run_bind]
  refine first.bind fun more longer result holds => ?_
  cases result with
  | ok value => exact next more longer value holds
  | error error => exact .of_pure (fails more longer error holds)

theorem imp {action : PoolM α} {between post : List Ty → α → Prop}
    (yields : Yields catalog values action between)
    (implies : ∀ more, values <+: more → ∀ value, between more value →
      post more value) :
    Yields catalog values action post := by
  intro pool faithful
  obtain ⟨more, longer, faithful, holds⟩ := yields pool faithful
  exact ⟨more, longer, faithful, implies more longer _ holds⟩

theorem of_get :
    Yields catalog values (get : PoolM Pool) fun more (pool : Pool) =>
      pool.Faithful catalog more :=
  fun _ faithful => ⟨values, List.prefix_rfl, faithful, faithful⟩

theorem assuming {action : PoolM α} {post : List Ty → α → Prop}
    (yields : catalog.Genuine values → Yields catalog values action post) :
    Yields catalog values action post :=
  fun pool faithful => yields faithful.declarations pool faithful

theorem of_modify {change : Pool → Pool}
    (keeps : ∀ pool : Pool, pool.Faithful catalog values →
      (change pool).Faithful catalog values) :
    Yields catalog values (modify change) fun _ _ => True :=
  fun pool faithful => ⟨values, List.prefix_rfl, keeps pool faithful, trivial⟩

end Yields

namespace Faithful

variable {pool : Pool} (faithful : pool.Faithful catalog values)

include faithful

/-- Counters and records may change. -/
theorem of_eq {after : Pool} (handles : after.nextHandle = pool.nextHandle)
    (remembered : after.remembered = pool.remembered)
    (kept : after.kept = pool.kept) : after.Faithful catalog values := by
  refine ⟨faithful.declarations, handles.trans faithful.handles, ?_, ?_, ?_⟩
  · rw [remembered]
    exact faithful.remembered
  · rw [kept]
    exact faithful.generation
  · rw [kept]
    exact faithful.kept

theorem remember {types : List Ty}
    (genuine : ∀ ty ∈ types, ty.Genuine catalog values) :
    { pool with remembered := types }.Faithful catalog values :=
  ⟨faithful.declarations, faithful.handles, genuine, faithful.generation,
    faithful.kept⟩

theorem grow {more : List Ty} (longer : values <+: more) :
    { pool with nextHandle := more.length }.Faithful catalog more := by
  refine ⟨faithful.declarations.mono longer, rfl, ?_, faithful.generation, ?_⟩
  · exact fun ty member =>
      (faithful.remembered ty member).mono (.refl catalog) longer
  · intro handle entry found current
    obtain ⟨genuine, value, stands, parents⟩ :=
      faithful.kept handle entry found current
    refine ⟨fun parent member =>
      (genuine parent member).mono (.refl catalog) longer, value, ?_,
        parents⟩
    obtain ⟨rest, rfl⟩ := longer
    rw [List.getElem?_append_left (List.getElem?_eq_some_iff.mp stands).1, stands]

theorem insert {handle : Nat} {value : Ty} {parents : ParentTypes}
    (stands : values[handle]? = some value)
    (genuine : ∀ parent ∈ parents.toList, parent.Genuine catalog values)
    (same : parents.bare = (catalog.parentTypes value).bare) :
    { pool with kept := pool.kept.insert handle ⟨catalog.generation, parents⟩ }.Faithful
      catalog values := by
  refine ⟨faithful.declarations, faithful.handles, faithful.remembered, ?_, ?_⟩
  · intro other entry found
    rw [Std.TreeMap.getElem?_insert] at found
    split at found
    · cases found
      exact Nat.le_refl _
    · exact faithful.generation other entry found
  · intro other entry found current
    rw [Std.TreeMap.getElem?_insert] at found
    split at found
    · rename_i equal
      cases found
      obtain rfl := Std.compare_eq_iff_eq.mp equal
      exact ⟨genuine, value, stands, same⟩
    · exact faithful.kept other entry found current

end Faithful

/-- The type of a result is genuine, and without handles it is the
expected result. -/
structure HandsOut (catalog : Catalog) {ε : Type} (expected : Except ε Ty)
    (values : List Ty) (result : Except ε Ty) : Prop where
  genuine : ∀ ty, result = .ok ty → ty.Genuine catalog values
  bare : result.map Ty.bare = expected

namespace HandsOut

variable {ε : Type} {expected : Except ε Ty}

theorem ok {ty value : Ty} (genuine : ty.Genuine catalog values)
    (same : ty.bare = value) :
    HandsOut catalog (.ok value : Except ε Ty) values (.ok ty) := by
  refine ⟨?_, congrArg Except.ok same⟩
  rintro _ ⟨⟩
  exact genuine

theorem error (error : ε) :
    HandsOut catalog (.error error) values (.error error) :=
  ⟨nofun, rfl⟩

end HandsOut

structure HandsOutAll (catalog : Catalog) (expected : List Ty)
    (values found : List Ty) : Prop where
  genuine : ∀ ty ∈ found, ty.Genuine catalog values
  bare : found.map Ty.bare = expected

theorem HandsOutAll.nil : HandsOutAll catalog [] values [] := ⟨nofun, rfl⟩

theorem HandsOutAll.append {more found others expected expectedOthers : List Ty}
    (first : HandsOutAll catalog expected values found)
    (longer : values <+: more)
    (second : HandsOutAll catalog expectedOthers more others) :
    HandsOutAll catalog (expected ++ expectedOthers) more
      (found ++ others) := by
  refine ⟨fun ty member => ?_, ?_⟩
  · rcases List.mem_append.mp member with member | member
    · exact (first.genuine ty member).mono (.refl catalog) longer
    · exact second.genuine ty member
  · rw [List.map_append, first.bare, second.bare]

theorem yields_startQuery (operation : Operation) (input : TypeId)
    (target : Option TypeId) :
    Yields catalog values (startQuery operation input target) fun _ _ =>
      True := by
  intro pool faithful
  refine ⟨values, List.prefix_rfl, ?_, trivial⟩
  change (if pool.tracing then _ else (pool.nextQuery, pool)).2.Faithful
    catalog values
  split
  · exact faithful.of_eq rfl rfl rfl
  · exact faithful

theorem yields_endQuery (query : Nat) (operation : Operation)
    (ok remembered : Bool) :
    Yields catalog values (endQuery query operation ok remembered) fun _ _ =>
      True := by
  refine .of_modify fun pool faithful => ?_
  split
  · exact faithful.of_eq rfl rfl rfl
  · exact faithful

theorem yields_keep {ty : Ty} (genuine : ty.Genuine catalog values) :
    Yields catalog values (keep ty) fun more kept =>
      kept.Genuine catalog more ∧ kept.bare = ty.bare := by
  intro pool faithful
  obtain ⟨more, longer, next, kept, same⟩ := Ty.withHandles_genuine genuine
  rw [← faithful.handles] at next kept same
  refine ⟨more, longer, ?_, kept, same⟩
  change { pool with nextHandle := (ty.withHandles pool.nextHandle).2 }.Faithful
    catalog more
  rw [next]
  exact faithful.grow longer

theorem yields_keepAll {types : List Ty}
    (genuine : ∀ ty ∈ types, ty.Genuine catalog values) :
    Yields catalog values (keepAll types)
      (HandsOutAll catalog (types.map Ty.bare)) := by
  induction types generalizing values with
  | nil => exact .of_pure .nil
  | cons ty rest ih =>
      refine (yields_keep (genuine ty List.mem_cons_self)).bind
        fun more longer first ⟨kept, same⟩ => ?_
      have later : ∀ ty ∈ rest, ty.Genuine catalog more := fun ty member =>
        (genuine ty (List.mem_cons_of_mem _ member)).mono (.refl catalog) longer
      have single : HandsOutAll catalog [ty.bare] more [first] :=
        ⟨List.forall_mem_singleton.mpr kept, congrArg (fun bare => [bare]) same⟩
      exact (ih later).bind fun _ longest _ others =>
        .of_pure (single.append longest others)

theorem yields_mapM_keep {ty : Option Ty}
    (genuine : ∀ inner, ty = some inner → inner.Genuine catalog values) :
    Yields catalog values (ty.mapM keep) fun more kept =>
      (∀ inner, kept = some inner → inner.Genuine catalog more) ∧
        kept.map Ty.bare = ty.map Ty.bare := by
  cases ty with
  | none => exact .of_pure ⟨nofun, rfl⟩
  | some ty =>
      refine (yields_keep (genuine ty rfl)).bind fun more _ kept ⟨held, same⟩ =>
        .of_pure ⟨?_, ?_⟩
      · rintro inner ⟨⟩
        exact held
      · exact congrArg some same

theorem yields_computeParents {ty : Ty} (genuine : ty.Genuine catalog values) :
    Yields catalog values (computeParents catalog ty) fun more parents =>
      (∀ parent ∈ parents.toList, parent.Genuine catalog more) ∧
        parents.bare = catalog.bare.parentTypes ty.bare := by
  refine .assuming fun declarations => ?_
  have computed := declarations.parentTypes genuine
  rw [catalog.parentTypes_bare, computeParents]
  refine (yields_mapM_keep fun inner found => computed inner ?_).bind
    fun more longer superclass kept => ?_
  · simp [ParentTypes.toList, found]
  obtain ⟨first, sameFirst⟩ := kept
  have interfaces : ∀ parent ∈ (catalog.parentTypes ty).interfaces,
      parent.Genuine catalog more := fun parent member =>
    (computed parent (List.mem_append_right _ member)).mono
      (.refl catalog) longer
  refine (yields_keepAll interfaces).bind fun most longest others kept => ?_
  obtain ⟨rest, sameRest⟩ := kept
  have parents : ∀ parent ∈ (ParentTypes.mk superclass others).toList,
      parent.Genuine catalog most := by
    intro parent member
    rcases List.mem_append.mp member with member | member
    · exact (first parent (Option.mem_toList.mp member)).mono
        (.refl catalog) longest
    · exact rest parent member
  have same : (ParentTypes.mk superclass others).bare =
      (catalog.parentTypes ty).bare := by
    change ParentTypes.mk (superclass.map Ty.bare) (others.map Ty.bare) = _
    rw [sameFirst, sameRest]
    rfl
  split
  · rename_i handle has
    have stands :=
      ((genuine.mono (.refl catalog) (longer.trans longest)).here.held handle has)
    refine (Yields.of_modify fun pool faithful => ?_).bind
      fun last longer _ _ => .of_pure ?_
    · refine faithful.insert stands parents (same.trans ?_)
      rw [← catalog.parentTypes_bare, ← catalog.parentTypes_bare, ty.bare_bare]
    · exact ⟨fun parent member =>
        (parents parent member).mono (.refl catalog) longer, same⟩
  · exact .of_pure ⟨parents, same⟩

theorem yields_parentTypes {ty : Ty} (genuine : ty.Genuine catalog values) :
    Yields catalog values (parentTypes catalog ty) fun more parents =>
      (∀ parent ∈ parents.toList, parent.Genuine catalog more) ∧
        parents.bare = catalog.bare.parentTypes ty.bare := by
  refine Yields.of_get.bind fun more longer pool faithful => ?_
  have genuine := genuine.mono (.refl catalog) longer
  split
  · rename_i entry found
    obtain ⟨handle, has, found⟩ := Option.bind_eq_some_iff.mp found
    split
    · rename_i current
      obtain ⟨parents, value, stands, same⟩ :=
        faithful.kept handle entry found current
      cases stands.symm.trans (genuine.here.held handle has)
      rw [← catalog.parentTypes_bare, ty.bare_bare] at same
      exact .of_pure ⟨parents, same⟩
    · exact yields_computeParents genuine
  · exact yields_computeParents genuine

end NominalTypes.Pool
