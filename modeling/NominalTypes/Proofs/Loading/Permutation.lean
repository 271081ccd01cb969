import NominalTypes.Proofs.Loading.Reachability
import NominalTypes.Proofs.Session.Relocation

namespace NominalTypes

/-! The order in which the entries of a catalog stand decides which identities
the types have, and nothing else. -/

section Acceptance

variable {entries others : List Entry}

theorem Expr.Fits.mono (within : entries ⊆ others) {params : List String}
    {expr : Expr} (fits : expr.Fits entries params) :
    expr.Fits others params := by
  induction fits with
  | param member => exact .param member
  | type member free complete _ ih =>
      exact .type (within member) free complete ih

theorem Mentions.mono (within : entries ⊆ others) {name root : String}
    (mentions : Mentions entries name root) : Mentions others name root := by
  obtain ⟨entry, member, rest⟩ := mentions
  exact ⟨entry, within member, rest⟩

theorem Loadable.perm (perm : entries.Perm others)
    (loadable : Loadable entries) : Loadable others := by
  refine ⟨perm.length_eq ▸ loadable.fewTypes,
    (perm.map Entry.name).nodup loadable.distinct,
    fun entry member => ?_, fun name cycle => ?_⟩
  · have valid := loadable.valid entry (perm.mem_iff.mpr member)
    refine ⟨valid.toPlain, fun text standing => ?_,
      fun kind text standing parent among => ?_⟩
    · obtain ⟨root, args, read, free, fits⟩ := valid.parents text standing
      exact ⟨root, args, read, free, fits.mono perm.subset⟩
    · exact valid.superclass kind text standing parent (perm.mem_iff.mpr among)
  · exact loadable.acyclic name
      (Relation.TransGen.mono
        (fun _ _ mentions => mentions.mono perm.symm.subset) _ _ cycle)

end Acceptance

/-- Where the entry that stands for an identity stands among the others. -/
def relocate (entries others : List Entry) (id : TypeId) : TypeId :=
  match entryAt? entries id with
  | some entry => others.idxOf entry + 1
  | none => id

theorem entryAt?_inj {entries : List Entry} (distinct : entries.Nodup)
    {id other : TypeId} {entry : Entry}
    (found : entryAt? entries id = some entry)
    (foundToo : entryAt? entries other = some entry) : id = other := by
  cases id with
  | zero => cases found
  | succ index =>
      cases other with
      | zero => cases foundToo
      | succ place =>
          rw [entryAt?_succ] at found foundToo
          have bound := (List.getElem?_eq_some_iff.mp found).1
          exact congrArg Nat.succ
            ((List.getElem?_inj bound distinct).mp (found.trans foundToo.symm))

theorem eq_map_of_forall₂ {α β γ : Type} {first : α → β → Prop}
    {second : α → γ → Prop} {image : β → γ} {items : List α} {others : List β}
    {images : List γ} (each : List.Forall₂ first items others)
    (eachToo : List.Forall₂ second items images)
    (same : ∀ item ∈ items, ∀ {other found}, first item other →
      second item found →
      found = image other) : images = others.map image := by
  induction each generalizing images with
  | nil =>
      cases eachToo
      rfl
  | cons holds _ ih =>
      cases eachToo with
      | cons holdsToo rest =>
          rw [List.map_cons, same _ List.mem_cons_self holds holdsToo,
            ih rest fun item member =>
              same item (List.mem_cons_of_mem _ member)]

section Relocate

variable {entries others : List Entry} (perm : entries.Perm others)

include perm

theorem entryAt?_relocate (id : TypeId) :
    entryAt? others (relocate entries others id) = entryAt? entries id := by
  rw [relocate]
  cases found : entryAt? entries id with
  | some entry =>
      exact List.getElem?_idxOf (perm.mem_iff.mp (mem_of_entryAt? found))
  | none =>
      refine Option.eq_none_iff_forall_ne_some.mpr fun entry foundToo => ?_
      have bounds := exists_entryAt?_iff.mp ⟨entry, foundToo⟩
      rw [← perm.length_eq] at bounds
      obtain ⟨_, known⟩ := exists_entryAt?_iff.mpr bounds
      cases found.symm.trans known

theorem relocate_injective (distinct : entries.Nodup) :
    Function.Injective (relocate entries others) := by
  intro id other same
  have sameEntry : entryAt? entries id = entryAt? entries other := by
    rw [← entryAt?_relocate perm id, same, entryAt?_relocate perm other]
  cases found : entryAt? entries id with
  | some entry => exact entryAt?_inj distinct found (sameEntry.symm.trans found)
  | none =>
      have missing := sameEntry.symm.trans found
      simpa only [relocate, found, missing] using same

/-- The same expression stands for the same term, under the other identities. -/
theorem Expr.Denotes.eq_rename (distinct : (entries.map Entry.name).Nodup)
    {params : List String} (distinctParams : params.Nodup) {expr : Expr}
    {term image : Term} (denotes : expr.Denotes entries params term)
    (denotesToo : expr.Denotes others params image) :
    image = term.rename (relocate entries others) := by
  have distinctOthers := (perm.map Entry.name).nodup distinct
  induction expr generalizing term image with
  | hole => cases denotes
  | named name args ih =>
      cases denotes with
      | @param _ index found =>
          cases denotesToo with
          | param foundToo =>
              have bound := (List.getElem?_eq_some_iff.mp found).1
              obtain rfl := (List.getElem?_inj bound distinctParams).mp
                (found.trans foundToo.symm)
              exact (Term.rename_slot _ index).symm
          | type _ free _ => exact absurd (List.mem_of_getElem? found) free
      | @type id entry _ terms found free each =>
          generalize named : entry.name = name at denotesToo
          cases denotesToo with
          | param foundToo =>
              exact absurd (named ▸ List.mem_of_getElem? foundToo) free
          | @type idToo entryToo _ termsToo foundToo _ eachToo =>
              have member := perm.mem_iff.mp (mem_of_entryAt? found)
              obtain rfl := List.inj_on_of_nodup_map distinctOthers member
                (mem_of_entryAt? foundToo) named
              rw [← entryAt?_relocate perm] at found
              obtain rfl :=
                entryAt?_inj (List.Nodup.of_map _ distinctOthers) found foundToo
              rw [Term.rename_apply, eq_map_of_forall₂ each eachToo ih]

theorem Parent.WrittenAs.eq_rename (distinct : (entries.map Entry.name).Nodup)
    {params : List String} (distinctParams : params.Nodup) {text : String}
    {parent image : Parent} (written : parent.WrittenAs entries params text)
    (writtenToo : image.WrittenAs others params text) :
    image = parent.rename (relocate entries others) := by
  obtain ⟨expr, read, denotes⟩ := written
  obtain ⟨_, readToo, denotesToo⟩ := writtenToo
  obtain rfl := Except.ok.inj (read.symm.trans readToo)
  have same := denotes.eq_rename perm distinct distinctParams denotesToo
  rw [Parent.term, Parent.term, Term.rename_apply] at same
  obtain ⟨ids, args⟩ := Term.apply.inj same
  rw [Parent.rename, ← ids, ← args]

end Relocate

def Declaration.rename (σ : TypeId → TypeId)
    (declaration : Declaration) : Declaration :=
  { declaration with
    superclass := declaration.superclass.map (Parent.rename σ)
    interfaces := declaration.interfaces.map (Parent.rename σ) }

theorem Catalog.renames_of_declaration? {σ : TypeId → TypeId}
    {first second : Catalog} (injective : Function.Injective σ)
    (size : second.size = first.size)
    (declaration? : ∀ id, second.declaration? (σ id) =
      (first.declaration? id).map (Declaration.rename σ))
    (unknownName : ∀ id, first.declaration? id = none →
      second.unknownName (σ id) = first.unknownName id) :
    first.Renames σ second := by
  refine ⟨injective, size, ?_, ?_, ?_, ?_, ?_, ?_, ?_⟩
  · intro id
    rw [contains, contains, declaration?, Option.isSome_map]
  · intro id
    rw [name, name, declaration?]
    cases declared : first.declaration? id with
    | none => exact unknownName id declared
    | some declaration => rfl
  all_goals
    intro id
    first
    | rw [kind, kind, declaration?]
    | rw [arity, arity, declaration?]
    | rw [params, params, declaration?]
    | rw [superclass, superclass, declaration?]
    | rw [interfaces, interfaces, declaration?]
    cases first.declaration? id <;> rfl

theorem Entry.Describes.eq_rename {entries others : List Entry}
    (perm : entries.Perm others) (distinct : (entries.map Entry.name).Nodup)
    {entry : Entry} (distinctParams : entry.params.Nodup)
    {declaration image : Declaration}
    (described : entry.Describes entries declaration)
    (describedToo : entry.Describes others image) :
    image = declaration.rename (relocate entries others) := by
  have same : ∀ texts : List String, ∀ text ∈ texts, ∀ {parent found : Parent},
      parent.WrittenAs entries entry.params text →
        found.WrittenAs others entry.params text →
        found = parent.rename (relocate entries others) :=
    fun _ _ _ _ _ written writtenToo =>
      written.eq_rename perm distinct distinctParams writtenToo
  have superclass :=
    eq_map_of_forall₂ described.superclass describedToo.superclass (same _)
  have interfaces :=
    eq_map_of_forall₂ described.interfaces describedToo.interfaces (same _)
  have head := describedToo.head.trans described.head.symm
  have sameSuperclass :=
    congrArg List.head? (superclass.trans Option.toList_map.symm)
  rw [Option.head?_toList, Option.head?_toList] at sameSuperclass
  obtain ⟨kind, name, arity, params, _, _⟩ := image
  simp only [Declaration.rootless, Declaration.mk.injEq] at head
  obtain ⟨rfl, rfl, rfl, rfl, _⟩ := head
  rw [Declaration.rename, ← sameSuperclass, ← interfaces]

section Loaded

variable {entries others : List Entry} {first second : Registry}
  (perm : entries.Perm others)
variable (loaded : Registry.ofEntries entries = .ok first)
variable (loadedToo : Registry.ofEntries others = .ok second)

include perm loaded loadedToo

theorem declaration?_relocate (id : TypeId) :
    second.catalog.declaration? (relocate entries others id) =
      (first.catalog.declaration? id).map
        (Declaration.rename (relocate entries others)) := by
  have loadable := Registry.loadable_of_ofEntries loaded
  have holds := Registry.holds_of_ofEntries loaded
  have holdsToo := Registry.holds_of_ofEntries loadedToo
  cases found : entryAt? entries id with
  | some entry =>
      obtain ⟨declaration, declared, described⟩ :=
        holds.declaration id entry found
      rw [← entryAt?_relocate perm] at found
      obtain ⟨image, declaredToo, describedToo⟩ :=
        holdsToo.declaration _ entry found
      have valid :=
        loadable.valid entry (perm.mem_iff.mpr (mem_of_entryAt? found))
      rw [declared, declaredToo, Option.map_some,
        described.eq_rename perm loadable.distinct valid.distinctParams
          describedToo]
  | none =>
      have missing : first.catalog.declaration? id = none := by
        refine Option.not_isSome_iff_eq_none.mp fun contained => ?_
        obtain ⟨entry, known⟩ := holds.contains_iff.mp contained
        cases found.symm.trans known
      rw [← entryAt?_relocate perm] at found
      rw [missing]
      refine Option.not_isSome_iff_eq_none.mp fun contained => ?_
      obtain ⟨entry, known⟩ := holdsToo.contains_iff.mp contained
      cases found.symm.trans known

theorem relocates_of_perm :
    first.Relocates (relocate entries others) second := by
  have loadable := Registry.loadable_of_ofEntries loaded
  have holds := Registry.holds_of_ofEntries loaded
  have holdsToo := Registry.holds_of_ofEntries loadedToo
  have distinct : entries.Nodup := List.Nodup.of_map _ loadable.distinct
  refine ⟨Catalog.renames_of_declaration? (relocate_injective perm distinct) ?_
    (declaration?_relocate perm loaded loadedToo) ?_, ?_, ?_⟩
  · rw [holds.size, holdsToo.size, perm.length_eq]
  · intro id missing
    have unmoved : relocate entries others id = id := by
      rw [relocate]
      cases found : entryAt? entries id with
      | none => rfl
      | some entry =>
          obtain ⟨_, declared, _⟩ := holds.declaration id entry found
          cases missing.symm.trans declared
    rw [unmoved, (Registry.reachable_of_ofEntries loaded).unknownName,
      (Registry.reachable_of_ofEntries loadedToo).unknownName]
  · intro name
    refine Option.ext fun image => ?_
    rw [holdsToo.id?_eq_some_iff, Option.map_eq_some_iff]
    simp only [holds.id?_eq_some_iff]
    constructor
    · rintro ⟨entry, found, named⟩
      obtain ⟨id, standing⟩ :=
        exists_entryAt?_of_mem (perm.mem_iff.mpr (mem_of_entryAt? found))
      refine ⟨id, ⟨entry, standing, named⟩, ?_⟩
      rw [← entryAt?_relocate perm] at standing
      exact entryAt?_inj (perm.nodup distinct) standing found
    · rintro ⟨id, ⟨entry, found, named⟩, rfl⟩
      exact ⟨entry, (entryAt?_relocate perm id).trans found, named⟩
  · intro name id known
    obtain ⟨entry, found, _⟩ := (holds.id?_eq_some_iff name id).mp known
    exact holds.contains_iff.mpr ⟨entry, found⟩

end Loaded

/-- A pool that has handed out nothing is faithful to declarations without
closed types. -/
theorem Pool.faithful_empty {catalog : Catalog} (genuine : catalog.Genuine [])
    (memoize tracing : Bool) :
    (Pool.empty memoize tracing).Faithful catalog [] := by
  refine ⟨genuine, rfl, List.forall_mem_nil _, ?_, ?_⟩
  · intro handle entry found
    simp [Pool.empty] at found
  · intro handle entry found
    simp [Pool.empty] at found

section Sessions

variable {entries others : List Entry} {registry first second : Registry}

/-- Sessions over a loaded registry put out what is computed without a pool. -/
theorem outputs_of_ofEntries
    (loaded : Registry.ofEntries entries = .ok registry)
    (memoize tracing : Bool) (commands : List (Format × Bool × Command)) :
    ((Session.executeAll registry commands).run (.empty memoize tracing)).1 =
      commands.map fun (format, color, command) =>
        registry.bare.output format color command := by
  have genuine : registry.catalog.Genuine [] :=
    ⟨(Registry.reachable_of_ofEntries loaded).sound,
      (Registry.holds_of_ofEntries loaded).allClosed _⟩
  obtain ⟨_, _, _, outputs⟩ := Session.yields_executeAll commands _
    (Pool.faithful_empty genuine memoize tracing)
  exact outputs

theorem bare_output_of_ofEntries
    (loaded : Registry.ofEntries entries = .ok registry) {command : Command}
    (asks : command ≠ .declarations) (format : Format) (color : Bool) :
    registry.bare.output format color command =
      registry.output format color command := by
  have holds := Registry.holds_of_ofEntries loaded
  refine (Registry.relocates_bare fun name id known => ?_).output asks
    format color
  obtain ⟨entry, found, _⟩ := (holds.id?_eq_some_iff name id).mp known
  exact holds.contains_iff.mpr ⟨entry, found⟩

theorem map_ids_of_ofEntries
    (loaded : Registry.ofEntries entries = .ok registry) {α : Type}
    (image : TypeId → α) :
    registry.catalog.ids.map image = entries.map fun entry =>
      image (entries.idxOf entry + 1) := by
  have distinct : entries.Nodup :=
    List.Nodup.of_map _ (Registry.loadable_of_ofEntries loaded).distinct
  rw [Catalog.ids, (Registry.holds_of_ofEntries loaded).size]
  refine List.ext_getElem (by simp) fun index bound _ => ?_
  simp [distinct.idxOf_getElem, Nat.add_comm]

/-- Sessions over the registries have the same answers to the same questions,
and list each entry by the same line, where it stands. -/
structure AnswerAlike (entries others : List Entry)
    (first second : Registry) : Prop where
  outputs : ∀ memoize tracing (commands : List (Format × Bool × Command)),
    (∀ format color, (format, color, Command.declarations) ∉ commands) →
      ((Session.executeAll first commands).run (.empty memoize tracing)).1 =
        ((Session.executeAll second commands).run (.empty memoize tracing)).1
  lines : ∃ lineOf : Entry → String, ∀ format color pool,
    ((Session.execute first format color .declarations).run pool).1 =
      .ofReport format (.declarations (entries.map lineOf)) ∧
    ((Session.execute second format color .declarations).run pool).1 =
      .ofReport format (.declarations (others.map lineOf))

theorem answerAlike_of_perm (perm : entries.Perm others)
    (loaded : Registry.ofEntries entries = .ok first)
    (loadedToo : Registry.ofEntries others = .ok second) :
    AnswerAlike entries others first second := by
  have relocates := relocates_of_perm perm loaded loadedToo
  refine ⟨fun memoize tracing commands asks => ?_,
    fun entry => first.catalog.describeDeclaration (entries.idxOf entry + 1),
    fun format color pool => ⟨?_, ?_⟩⟩
  · rw [outputs_of_ofEntries loaded, outputs_of_ofEntries loadedToo]
    refine List.map_congr_left fun ⟨format, color, command⟩ member => ?_
    have question : command ≠ .declarations := by
      rintro rfl
      exact asks format color member
    simp only [bare_output_of_ofEntries loaded question,
      bare_output_of_ofEntries loadedToo question, relocates.output question]
  · rw [← map_ids_of_ofEntries loaded first.catalog.describeDeclaration]
    rfl
  · have lines : others.map (fun entry =>
        first.catalog.describeDeclaration (entries.idxOf entry + 1)) =
        second.catalog.ids.map second.catalog.describeDeclaration := by
      rw [map_ids_of_ofEntries loadedToo]
      refine List.map_congr_left fun entry member => ?_
      have standing : entryAt? entries (entries.idxOf entry + 1) = some entry :=
        List.getElem?_idxOf (perm.mem_iff.mpr member)
      rw [← relocates.renames.describeDeclaration, relocate, standing]
    rw [lines]
    rfl

/-- Both lists of entries are refused, or both are accepted and lead to the
same answers. -/
inductive LoadAlike (entries others : List Entry) : Prop
  | refused {error errorToo : LoadError}
      (loading : Registry.ofEntries entries = .error error)
      (loadingToo : Registry.ofEntries others = .error errorToo) :
      LoadAlike entries others
  | accepted {first second : Registry}
      (loaded : Registry.ofEntries entries = .ok first)
      (loadedToo : Registry.ofEntries others = .ok second)
      (alike : AnswerAlike entries others first second) :
      LoadAlike entries others

theorem loadAlike_of_perm (perm : entries.Perm others) :
    LoadAlike entries others := by
  cases loading : Registry.ofEntries entries with
  | error error =>
      cases loadingToo : Registry.ofEntries others with
      | error _ => exact .refused loading loadingToo
      | ok second =>
          obtain ⟨first, accepted⟩ := Registry.exists_ofEntries
            ((Registry.loadable_of_ofEntries loadingToo).perm perm.symm)
          cases loading.symm.trans accepted
  | ok first =>
      cases loadingToo : Registry.ofEntries others with
      | error _ =>
          obtain ⟨second, accepted⟩ := Registry.exists_ofEntries
            ((Registry.loadable_of_ofEntries loading).perm perm)
          cases loadingToo.symm.trans accepted
      | ok second =>
          exact .accepted loading loadingToo
            (answerAlike_of_perm perm loading loadingToo)

end Sessions

/-- A class, and after it the interface that it implements. -/
def forwardEntries : List Entry :=
  [⟨"Names", .classType, [], [], ["List<Names>"]⟩,
    ⟨"List", .interfaceType, ["E"], [], []⟩]

theorem loadAlike_forward :
    (Registry.ofEntries forwardEntries).isOk = true ∧
      forwardEntries.Perm forwardEntries.reverse ∧
      LoadAlike forwardEntries forwardEntries.reverse :=
  ⟨by decide +kernel, forwardEntries.reverse_perm.symm,
    loadAlike_of_perm forwardEntries.reverse_perm.symm⟩

end NominalTypes
