import NominalTypes.Proofs.Loading.Linking

namespace NominalTypes

/-! Which written catalogs are accepted.  What an entry may say depends on what
the others declare, but not on where they stand. -/

/-- The texts that stand for parents of any kind. -/
def Entry.parentTexts (entry : Entry) : List String :=
  entry.extending ++ entry.implementing

/-- A type is written as a parent of the type of this name. -/
def Mentions (entries : List Entry) (name root : String) : Prop :=
  ∃ entry ∈ entries, entry.name = name ∧
    ∃ text ∈ entry.parentTexts, ∃ args, Expr.read text = .ok (.named root args)

/-- The entry is allowed among the entries. -/
structure Entry.Valid (entries : List Entry) (entry : Entry) :
    Prop extends entry.Plain where
  parents : ∀ text ∈ entry.parentTexts, ∃ root args,
    Expr.read text = .ok (.named root args) ∧
    root ∉ entry.params ∧ (Expr.named root args).Fits entries entry.params
  superclass : entry.kind = .classType →
    ∀ text ∈ entry.extending, ∀ parent ∈ entries,
    ∀ args, Expr.read text = .ok (.named parent.name args) →
      parent.kind = .classType

/-- The entries make up a catalog. -/
structure Loadable (entries : List Entry) : Prop where
  fewTypes : entries.length ≤ maxTypes
  distinct : (entries.map Entry.name).Nodup
  valid : ∀ entry ∈ entries, entry.Valid entries
  acyclic : ∀ name, ¬ Relation.TransGen (Mentions entries) name name

/-- The registry declares what the entries say, under the identities one, two,
three and so on. -/
structure Registry.Holds (registry : Registry)
    (entries : List Entry) : Prop where
  size : registry.catalog.size = entries.length
  declaration : ∀ id entry, entryAt? entries id = some entry →
    ∃ declaration, registry.catalog.declaration? id = some declaration ∧
      entry.Describes entries declaration
  id?_eq_some_iff : ∀ name id, registry.id? name = some id ↔
    ∃ entry, entryAt? entries id = some entry ∧ entry.name = name

theorem Registry.Holds.contains_iff {registry : Registry} {entries : List Entry}
    (holds : registry.Holds entries) {id : TypeId} :
    registry.catalog.contains id = true ↔
      ∃ entry, entryAt? entries id = some entry := by
  rw [registry.catalog.contains_iff, holds.size, exists_entryAt?_iff]

theorem exists_getElem?_of_forall₂ {α β : Type} {related : α → β → Prop}
    {items : List α} {others : List β}
    (each : List.Forall₂ related items others) {index : Nat} {item : α}
    (found : items[index]? = some item) :
    ∃ other, others[index]? = some other ∧ related item other := by
  induction each generalizing index with
  | nil => cases found
  | @cons _ other _ _ holds _ ih =>
      cases index with
      | zero =>
          obtain rfl := Option.some.inj found
          exact ⟨other, rfl, holds⟩
      | succ index => exact ih found

theorem exists_mem_of_forall₂ {α β : Type} {related : α → β → Prop}
    {items : List α} {others : List β}
    (each : List.Forall₂ related items others) {item : α}
    (member : item ∈ items) : ∃ other ∈ others, related item other := by
  obtain ⟨index, found⟩ := List.getElem?_of_mem member
  obtain ⟨other, standing, holds⟩ := exists_getElem?_of_forall₂ each found
  exact ⟨other, List.mem_of_getElem? standing, holds⟩

theorem Entry.Plain.toList_superclassText? {entry : Entry} (plain : entry.Plain)
    (kind : entry.kind = .classType) :
    entry.superclassText?.toList = entry.extending := by
  have single := plain.extending kind
  rw [superclassText?, kind]
  match extending : entry.extending with
  | [] => rfl
  | [_] => rfl
  | _ :: _ :: _ => simp [extending] at single

theorem Entry.Plain.parentTexts_eq {entry : Entry} (plain : entry.Plain) :
    entry.parentTexts =
      entry.superclassText?.toList ++ entry.interfaceTexts := by
  cases kind : entry.kind with
  | classType =>
      rw [parentTexts, plain.toList_superclassText? kind, interfaceTexts, kind]
  | interfaceType =>
      rw [parentTexts, plain.implementing kind, superclassText?,
        interfaceTexts, kind, List.append_nil]
      rfl

theorem mem_linksFrom_iff {id : TypeId} {declarations : List Declaration}
    {link : Link} :
    link ∈ linksFrom id declarations ↔ ∃ index, ∃ declaration : Declaration,
      declarations[index]? = some declaration ∧
        link ∈ declaration.links (id + index) := by
  induction declarations generalizing id with
  | nil => simp [linksFrom]
  | cons first rest ih =>
      rw [linksFrom, List.mem_append, ih]
      constructor
      · rintro (member | ⟨index, declaration, found, member⟩)
        · exact ⟨0, first, rfl, member⟩
        · exact ⟨index + 1, declaration, found, by
            rwa [← Nat.add_assoc, Nat.add_right_comm]⟩
      · rintro ⟨_ | index, declaration, found, member⟩
        · obtain rfl := Option.some.inj found
          exact .inl member
        · exact .inr ⟨index, declaration, found, by
            rwa [Nat.add_right_comm, Nat.add_assoc]⟩

/-- Each type is given one superclass at most. -/
theorem pairwise_linksFrom (id : TypeId) (declarations : List Declaration) :
    (linksFrom id declarations).Pairwise fun first second =>
      first.asSuperclass = true →
        second.asSuperclass = true → first.owner ≠ second.owner := by
  induction declarations generalizing id with
  | nil => exact .nil
  | cons declaration rest ih =>
      refine List.pairwise_append.mpr
        ⟨?_, ih (id + 1), fun first member second later _ _ => ?_⟩
      · rw [Declaration.links]
        cases declaration.superclass <;>
          simp [List.pairwise_map, List.pairwise_of_forall]
      · obtain ⟨index, _, _, late⟩ := mem_linksFrom_iff.mp later
        rw [Declaration.owner_of_mem_links first member,
          Declaration.owner_of_mem_links second late]
        exact Nat.ne_of_lt (Nat.lt_add_right index (Nat.lt_succ_self id))

section Described

variable {entries : List Entry} {entry : Entry} {declaration : Declaration}
  {id : TypeId}

theorem Parent.WrittenAs.root {params : List String} {text : String}
    {parent : Parent} (written : parent.WrittenAs entries params text) :
    ∃ root args, Expr.read text = .ok (.named root.name args) ∧
      entryAt? entries parent.id = some root ∧ root.name ∉ params ∧
      (Expr.named root.name args).Denotes entries params parent.term := by
  obtain ⟨expr, read, denotes⟩ := written
  obtain ⟨parentId, terms⟩ := parent
  cases expr with
  | hole => cases denotes
  | named name args =>
      have whole := denotes
      cases denotes with
      | type found free _ => exact ⟨_, args, read, found, free, whole⟩

/-- Every link of a described declaration is written in the entry. -/
theorem Entry.Describes.exists_text
    (described : entry.Describes entries declaration) (plain : entry.Plain)
    {link : Link} (member : link ∈ declaration.links id) :
    ∃ text ∈ entry.parentTexts,
      link.parent.WrittenAs entries entry.params text ∧
      (link.asSuperclass = true →
        entry.kind = .classType ∧ text ∈ entry.extending) := by
  rw [plain.parentTexts_eq]
  rcases List.mem_append.mp member with member | member
  · obtain ⟨parent, standing, rfl⟩ := List.mem_map.mp member
    obtain ⟨text, found, written⟩ :=
      exists_mem_of_forall₂ described.superclass.flip standing
    refine ⟨text, List.mem_append_left _ found, written, fun _ => ?_⟩
    cases kind : entry.kind with
    | classType => exact ⟨rfl, plain.toList_superclassText? kind ▸ found⟩
    | interfaceType => simp [superclassText?, kind] at found
  · obtain ⟨parent, standing, rfl⟩ := List.mem_map.mp member
    obtain ⟨text, found, written⟩ :=
      exists_mem_of_forall₂ described.interfaces.flip standing
    exact ⟨text, List.mem_append_right _ found, written, nofun⟩

/-- Every text of an entry is linked in the declaration that it describes. -/
theorem Entry.Describes.exists_link
    (described : entry.Describes entries declaration) (plain : entry.Plain)
    (id : TypeId) {text : String} (member : text ∈ entry.parentTexts) :
    ∃ link ∈ declaration.links id,
      link.parent.WrittenAs entries entry.params text ∧
      (entry.kind = .classType → text ∈ entry.extending →
        link.asSuperclass = true) := by
  by_cases extended : text ∈ entry.superclassText?.toList
  · obtain ⟨parent, standing, written⟩ :=
      exists_mem_of_forall₂ described.superclass extended
    have linked := List.mem_map_of_mem (f := Link.mk id true) standing
    exact ⟨_, List.mem_append_left _ linked, written, fun _ _ => rfl⟩
  · rw [plain.parentTexts_eq, List.mem_append, or_iff_right extended] at member
    obtain ⟨parent, standing, written⟩ :=
      exists_mem_of_forall₂ described.interfaces member
    have linked := List.mem_map_of_mem (f := Link.mk id false) standing
    refine ⟨_, List.mem_append_right _ linked, written, fun kind standing => ?_⟩
    rw [← plain.toList_superclassText? kind] at standing
    exact absurd standing extended

theorem exists_writtenAs {params : List String} {text root : String}
    {args : List Expr} (read : Expr.read text = .ok (.named root args))
    (free : root ∉ params) (fits : (Expr.named root args).Fits entries params) :
    ∃ parent, Parent.WrittenAs entries params text parent := by
  obtain ⟨term, denotes⟩ := fits.exists_denotes
  cases denotes with
  | param found => exact absurd (List.mem_of_getElem? found) free
  | @type id _ _ terms found free each =>
      exact ⟨⟨id, terms⟩, _, read, .type found free each⟩

theorem exists_forall₂_toList {α β : Type} {related : α → β → Prop}
    {item? : Option α}
    (each : ∀ item ∈ item?.toList, ∃ other, related item other) :
    ∃ other? : Option β, List.Forall₂ related item?.toList other?.toList := by
  cases item? with
  | none => exact ⟨none, .nil⟩
  | some item =>
      obtain ⟨other, holds⟩ := each item List.mem_cons_self
      exact ⟨some other, .cons holds .nil⟩

theorem Entry.Valid.exists_describes (valid : entry.Valid entries) :
    ∃ declaration, entry.Describes entries declaration := by
  have written : ∀ text ∈ entry.superclassText?.toList ++ entry.interfaceTexts,
      ∃ parent, Parent.WrittenAs entries entry.params text parent := by
    rw [← valid.parentTexts_eq]
    intro text member
    obtain ⟨root, args, read, free, fits⟩ := valid.parents text member
    exact exists_writtenAs read free fits
  obtain ⟨superclass, first⟩ := exists_forall₂_toList fun text member =>
    written text (List.mem_append_left _ member)
  obtain ⟨interfaces, others⟩ := exists_forall₂ fun text member =>
    written text (List.mem_append_right _ member)
  exact ⟨{ entry.head with superclass, interfaces }, rfl, first, others⟩

end Described

namespace Registry

section Described

variable {entries : List Entry} {declarations : List Declaration}
  {declared : Registry}
variable (declares : declared.Declares entries) (rootless : declared.Rootless)
variable (plain : ∀ entry ∈ entries, entry.Plain)
variable (each : List.Forall₂ (Entry.Describes entries) entries declarations)

include plain each

theorem exists_entry_of_mem_links {link : Link}
    (member : link ∈ linksFrom 1 declarations) :
    ∃ entry, entryAt? entries link.owner = some entry ∧
      ∃ text ∈ entry.parentTexts,
        link.parent.WrittenAs entries entry.params text ∧
        (link.asSuperclass = true →
          entry.kind = .classType ∧ text ∈ entry.extending) := by
  obtain ⟨index, declaration, found, linked⟩ := mem_linksFrom_iff.mp member
  obtain ⟨entry, standing, described⟩ :=
    exists_getElem?_of_forall₂ each.flip found
  refine ⟨entry, ?_,
    described.exists_text (plain entry (List.mem_of_getElem? standing)) linked⟩
  rw [Declaration.owner_of_mem_links link linked, Nat.add_comm,
    entryAt?_succ, standing]

theorem exists_mem_links_of_text {entry : Entry} {id : TypeId}
    (found : entryAt? entries id = some entry) {text : String}
    (member : text ∈ entry.parentTexts) :
    ∃ link ∈ linksFrom 1 declarations, link.owner = id ∧
      link.parent.WrittenAs entries entry.params text ∧
      (entry.kind = .classType → text ∈ entry.extending →
        link.asSuperclass = true) := by
  cases id with
  | zero => cases found
  | succ index =>
      obtain ⟨declaration, standing, described⟩ :=
        exists_getElem?_of_forall₂ each found
      obtain ⟨link, linked, written⟩ :=
        described.exists_link (plain entry (mem_of_entryAt? found))
          (index + 1) member
      refine ⟨link, mem_linksFrom_iff.mpr ⟨index, declaration, standing, ?_⟩,
        Declaration.owner_of_mem_links link linked, written⟩
      rwa [Nat.add_comm]

include declares

theorem edgeWith_of_mentions {name root : String}
    (mentions : Mentions entries name root) :
    declared.EdgeWith (linksFrom 1 declarations) ((declared.id? name).getD 0)
      ((declared.id? root).getD 0) := by
  obtain ⟨entry, member, rfl, text, standing, args, read⟩ := mentions
  obtain ⟨id, found⟩ := exists_entryAt?_of_mem member
  obtain ⟨link, linked, owner, written, _⟩ :=
    exists_mem_links_of_text plain each found standing
  obtain ⟨other, others, readOther, foundOther, _⟩ := written.root
  obtain ⟨rfl, _⟩ := Expr.named.inj (Except.ok.inj (read.symm.trans readOther))
  rw [declares.id?_name found, declares.id?_name foundOther]
  exact .inr ⟨link, linked, owner, rfl⟩

theorem valid_of_admits (admits : declared.Admits (linksFrom 1 declarations)) :
    ∀ entry ∈ entries, entry.Valid entries := by
  intro entry member
  obtain ⟨id, found⟩ := exists_entryAt?_of_mem member
  refine ⟨plain entry member, fun text standing => ?_,
    fun kind text standing => ?_⟩
  · obtain ⟨link, linked, owner, written, _⟩ :=
      exists_mem_links_of_text plain each found standing
    obtain ⟨root, args, read, _, free, denotes⟩ := written.root
    have fits := admits.fits link linked
    rw [owner, declares.arity found,
      ← fits_iff_of_denotes declares denotes] at fits
    exact ⟨root.name, args, read, free, fits⟩
  · obtain ⟨link, linked, owner, written, superclass⟩ :=
      exists_mem_links_of_text plain each found
        (List.mem_append_left _ standing)
    obtain ⟨root, _, read, foundRoot, _⟩ := written.root
    intro parent memberParent args readParent
    obtain ⟨same, _⟩ :=
      Expr.named.inj (Except.ok.inj (read.symm.trans readParent))
    obtain rfl := List.inj_on_of_nodup_map declares.distinct
      (mem_of_entryAt? foundRoot) memberParent same
    rw [← declares.kind foundRoot]
    exact admits.isClass link linked (superclass kind standing)

include rootless

theorem mentions_of_edgeWith {id ancestor : TypeId}
    (edge : declared.EdgeWith (linksFrom 1 declarations) id ancestor) :
    Mentions entries (declared.catalog.name id)
      (declared.catalog.name ancestor) := by
  rcases edge with ⟨_, member, _⟩ | ⟨link, linked, rfl, rfl⟩
  · rw [rootless.parents] at member
    cases member
  · obtain ⟨entry, found, text, standing, written, _⟩ :=
      exists_entry_of_mem_links plain each linked
    obtain ⟨root, args, read, foundRoot, _⟩ := written.root
    rw [declares.name found, declares.name foundRoot]
    exact ⟨entry, mem_of_entryAt? found, rfl, text, standing, args, read⟩

theorem acyclic_iff :
    (∀ id, ¬ Relation.TransGen
        (declared.EdgeWith (linksFrom 1 declarations)) id id) ↔
      ∀ name, ¬ Relation.TransGen (Mentions entries) name name := by
  constructor
  · intro acyclic name cycle
    exact acyclic _
      (Relation.TransGen.lift (fun name => (declared.id? name).getD 0)
        (fun _ _ => edgeWith_of_mentions declares plain each) _ _ cycle)
  · intro acyclic id cycle
    exact acyclic _ (Relation.TransGen.lift declared.catalog.name
      (fun _ _ => mentions_of_edgeWith declares rootless plain each) _ _ cycle)

theorem admits_of_valid (valid : ∀ entry ∈ entries, entry.Valid entries)
    (acyclic : ∀ name, ¬ Relation.TransGen (Mentions entries) name name) :
    declared.Admits (linksFrom 1 declarations) := by
  refine ⟨fun link member => ?_, fun link member => ?_,
    fun link member superclass => ?_,
    fun link member superclass => ?_, pairwise_linksFrom 1 declarations,
    (acyclic_iff declares rootless plain each).mpr acyclic⟩
  · obtain ⟨entry, found, _⟩ := exists_entry_of_mem_links plain each member
    exact (declares.contains_iff _).mpr ⟨entry, found⟩
  · obtain ⟨entry, found, text, standing, written, _⟩ :=
      exists_entry_of_mem_links plain each member
    obtain ⟨root, args, read, _, _, denotes⟩ := written.root
    obtain ⟨_, _, readAgain, _, fits⟩ :=
      (valid entry (mem_of_entryAt? found)).parents text standing
    obtain ⟨rfl, rfl⟩ :=
      Expr.named.inj (Except.ok.inj (readAgain.symm.trans read))
    rwa [declares.arity found, ← fits_iff_of_denotes declares denotes]
  · obtain ⟨entry, found, text, _, written, isSuperclass⟩ :=
      exists_entry_of_mem_links plain each member
    obtain ⟨kind, standing⟩ := isSuperclass superclass
    obtain ⟨root, args, read, foundRoot, _⟩ := written.root
    rw [declares.kind foundRoot]
    exact (valid entry (mem_of_entryAt? found)).superclass kind text
      standing root (mem_of_entryAt? foundRoot) args read
  · have none := rootless.parents link.owner
    rw [Catalog.parents, List.append_eq_nil_iff,
      Option.toList_eq_nil_iff] at none
    exact none.1

end Described

theorem Rootless.acyclic {registry : Registry} (rootless : registry.Rootless) :
    registry.catalog.Acyclic := by
  intro id cycle
  obtain ⟨_, ⟨parent, member, _⟩, _⟩ := Relation.TransGen.head'_iff.mp cycle
  rw [rootless.parents] at member
  cases member

variable {entries : List Entry} {registry : Registry}

theorem ofEntries_eq_ok_iff :
    ofEntries entries = .ok registry ↔ entries.length ≤ maxTypes ∧
      ∃ declared, empty.declareEntries entries = .ok declared ∧
        declared.linkEntries 1 entries = .ok registry := by
  simp only [ofEntries, bind, Except.bind, throw, throwThe, MonadExceptOf.throw,
    refusing_eq_ok_iff, not_lt]
  refine and_congr_right fun _ => ?_
  cases empty.declareEntries entries <;> simp

/-- What has been declared and linked when entries are loaded. -/
theorem exists_of_ofEntries (loaded : ofEntries entries = .ok registry) :
    entries.length ≤ maxTypes ∧ (∀ entry ∈ entries, entry.Plain) ∧
      ∃ (declared : Registry) (declarations : List Declaration),
        empty.declareEntries entries = .ok declared ∧
        declared.Declares entries ∧
        declared.Rootless ∧
        List.Forall₂ (Entry.Describes entries) entries declarations ∧
        declared.linkAll (linksFrom 1 declarations) = .ok registry := by
  obtain ⟨few, declared, first, second⟩ := ofEntries_eq_ok_iff.mp loaded
  obtain ⟨plain, declares, rootless⟩ :=
    declares_declareEntries declares_empty rootless_empty first
  obtain ⟨declarations, each, linked⟩ :=
    (linkEntries_eq_ok_iff declares plain).mp second
  exact ⟨few, plain, declared, declarations, first, declares, rootless,
    each, linked⟩

theorem loadable_of_ofEntries (loaded : ofEntries entries = .ok registry) :
    Loadable entries := by
  obtain ⟨few, plain, declared, declarations, _, declares, rootless,
      each, linked⟩ :=
    exists_of_ofEntries loaded
  have admits := (exists_linkAll_iff rootless.acyclic).mp ⟨registry, linked⟩
  exact ⟨few, declares.distinct, valid_of_admits declares plain each admits,
    (acyclic_iff declares rootless plain each).mp admits.acyclic⟩

theorem holds_of_ofEntries (loaded : ofEntries entries = .ok registry) :
    registry.Holds entries := by
  obtain ⟨_, _, declared, declarations, _, declares, rootless, each, linked⟩ :=
    exists_of_ofEntries loaded
  have bare : ∀ index declaration, declarations[index]? = some declaration →
      declared.catalog.declaration? (1 + index) =
          some declaration.rootless := by
    intro index declaration found
    obtain ⟨entry, standing, described⟩ :=
      exists_getElem?_of_forall₂ each.flip found
    rw [Nat.add_comm, ← rootless, declares.heads, entryAt?_succ, standing,
      Option.map_some, described.head]
  have same := declares.linkAll linked
  refine ⟨same.size, fun id entry found => ?_, same.id?_eq_some_iff⟩
  cases id with
  | zero => cases found
  | succ index =>
      obtain ⟨declaration, standing, described⟩ :=
        exists_getElem?_of_forall₂ each found
      have complete :=
        (declaration?_linkAll bare linked).1 index declaration standing
      rw [Nat.add_comm] at complete
      exact ⟨declaration, complete, described⟩

theorem exists_ofEntries (loadable : Loadable entries) :
    ∃ registry, ofEntries entries = .ok registry := by
  have plain : ∀ entry ∈ entries, entry.Plain := fun entry member =>
    (loadable.valid entry member).toPlain
  obtain ⟨declared, first⟩ :=
    exists_declareEntries declares_empty plain loadable.distinct
  obtain ⟨_, declares, rootless⟩ :=
    declares_declareEntries declares_empty rootless_empty first
  obtain ⟨declarations, each⟩ := exists_forall₂ fun entry member =>
    (loadable.valid entry member).exists_describes
  have admits :=
    admits_of_valid declares rootless plain each loadable.valid loadable.acyclic
  obtain ⟨registry, linked⟩ := (exists_linkAll_iff rootless.acyclic).mpr admits
  exact ⟨registry, ofEntries_eq_ok_iff.mpr ⟨loadable.fewTypes, declared, first,
    (linkEntries_eq_ok_iff declares plain).mpr ⟨declarations, each, linked⟩⟩⟩

/-- The entries of a catalog are accepted exactly if they are valid, whatever
their order, and then the registry holds what they say. -/
theorem ofEntries_spec (entries : List Entry) :
    match ofEntries entries with
    | .ok registry => Loadable entries ∧ registry.Holds entries
    | .error _ => ¬ Loadable entries := by
  cases loaded : ofEntries entries with
  | ok registry =>
      exact ⟨loadable_of_ofEntries loaded, holds_of_ofEntries loaded⟩
  | error error =>
      intro loadable
      obtain ⟨registry, accepted⟩ := exists_ofEntries loadable
      cases loaded.symm.trans accepted

end Registry

end NominalTypes
