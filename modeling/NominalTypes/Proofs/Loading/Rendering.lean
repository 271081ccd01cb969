import NominalTypes.Catalog.Rendering
import NominalTypes.Proofs.Expr.Reading
import NominalTypes.Proofs.Loading.Acceptance

namespace NominalTypes

open NominalTypes.Text

/-! Loaded declarations are shown as they were written, up to blanks. -/

def Text.withoutBlanks (text : String) : String :=
  String.ofList (text.toList.filter fun c => !isBlank c)

/-- A keyword and the texts behind it; nothing at all if there are none. -/
def Text.clause (keyword : String) (texts : List String) : String :=
  if texts.isEmpty then "" else keyword ++ ",".intercalate texts

/-- The declaration as an entry writes it, without the blanks in the texts
of the parents. -/
def Entry.written (entry : Entry) : String :=
  let head := entry.name ++ bracketed entry.params
  let extending := Text.clause " extends " (entry.extending.map withoutBlanks)
  match entry.kind with
  | .classType => "class " ++ head ++ extending ++
      Text.clause " implements " (entry.implementing.map withoutBlanks)
  | .interfaceType => "interface " ++ head ++ extending

theorem Catalog.describeDeclaration_eq_clauses (catalog : Catalog)
    (id : TypeId) :
    catalog.describeDeclaration id =
      (catalog.kind id).keyword ++ " " ++ catalog.name id ++
        bracketed (catalog.params id) ++
        Text.clause " extends "
          ((catalog.superclass id).toList.map (catalog.describeParent id)) ++
        Text.clause
          (if catalog.kind id = .interfaceType ∧
              (catalog.superclass id).isNone then " extends "
            else " implements ")
          ((catalog.interfaces id).map (catalog.describeParent id)) := by
  simp only [describeDeclaration, Text.clause, List.isEmpty_map]
  cases catalog.superclass id with
  | none => rfl
  | some parent => simp

namespace Expr

variable {text : String} {expr : Expr}

theorem print_of_read (read : Expr.read text = .ok expr) :
    expr.print = withoutBlanks text := by
  rw [withoutBlanks, (read_eq_ok_iff.mp read).1.filter_eq_flatMap_text,
    ← toList_print, String.ofList_toList]

theorem read_print_of_read (read : Expr.read text = .ok expr) :
    Expr.read expr.print = .ok expr := by
  obtain ⟨laid, room⟩ := read_eq_ok_iff.mp read
  exact read_print (readable_of_tokens laid.valid room)

end Expr

theorem map_eq_map_of_forall₂ {α β γ : Type} {related : α → β → Prop}
    {first : α → γ} {second : β → γ} {items : List α} {others : List β}
    (each : List.Forall₂ related items others)
    (same : ∀ item ∈ items, ∀ other, related item other →
      first item = second other) :
    items.map first = others.map second := by
  induction each with
  | nil => rfl
  | @cons item other _ _ holds _ ih =>
      rw [List.map_cons, List.map_cons,
        same item List.mem_cons_self other holds, ih fun later member =>
          same later (List.mem_cons_of_mem _ member)]

namespace Registry

variable {entries : List Entry} {registry : Registry} {id : TypeId}
  {entry : Entry}

namespace Holds

variable (holds : registry.Holds entries)

include holds

section Head

variable (found : entryAt? entries id = some entry)

include found

theorem exists_head :
    ∃ declaration, registry.catalog.declaration? id = some declaration ∧
    declaration.kind = entry.kind ∧ declaration.name = entry.name ∧
      declaration.params = entry.params := by
  obtain ⟨declaration, declared, described⟩ := holds.declaration id entry found
  have head := described.head
  exact ⟨declaration, declared, congrArg Declaration.kind head,
    congrArg Declaration.name head, congrArg Declaration.params head⟩

theorem kind : registry.catalog.kind id = entry.kind := by
  obtain ⟨_, declared, same, _, _⟩ := holds.exists_head found
  rw [Catalog.kind, declared, ← same]

theorem name : registry.catalog.name id = entry.name := by
  obtain ⟨_, declared, _, same, _⟩ := holds.exists_head found
  rw [Catalog.name, declared, ← same]

theorem params : registry.catalog.params id = entry.params := by
  obtain ⟨_, declared, _, _, same⟩ := holds.exists_head found
  rw [Catalog.params, declared, ← same]

end Head

/-- A slot is shown by the name of the parameter, and an identity by the name of
the type, so it does not matter whether a parameter is called like a type. -/
theorem describe_of_denotes {params : List String} {expr : Expr} {term : Term}
    (denotes : expr.Denotes entries params term) :
    term.describe registry.catalog params = expr.print := by
  induction expr generalizing term with
  | hole => cases denotes
  | named name args ih =>
      cases denotes with
      | param found =>
          rw [Term.describe, found, Expr.print_named, List.map_nil,
            bracketed_nil, String.append_empty, Option.getD_some]
      | type found _ each =>
          have inside := map_eq_map_of_forall₂ each fun arg member _ denotes =>
            (ih arg member denotes).symm
          rw [Term.describe, Term.describeAll_eq_map, ← inside,
            Expr.print_named, holds.name found]

theorem describeParent_of_writtenAs (found : entryAt? entries id = some entry)
    {text : String} {parent : Parent}
    (written : parent.WrittenAs entries entry.params text) :
    ∃ expr, Expr.read text = .ok expr ∧
      registry.catalog.describeParent id parent = expr.print := by
  obtain ⟨expr, read, denotes⟩ := written
  refine ⟨expr, read, ?_⟩
  rw [Catalog.describeParent, holds.params found]
  exact holds.describe_of_denotes denotes

theorem map_describeParent (found : entryAt? entries id = some entry)
    {texts : List String} {parents : List Parent}
    (each : List.Forall₂ (Parent.WrittenAs entries entry.params) texts parents) :
    parents.map (registry.catalog.describeParent id) =
      texts.map withoutBlanks := by
  refine (map_eq_map_of_forall₂ each fun text _ parent written => ?_).symm
  obtain ⟨expr, read, described⟩ :=
    holds.describeParent_of_writtenAs found written
  rw [described, Expr.print_of_read read]

theorem describeDeclaration (plain : entry.Plain)
    (found : entryAt? entries id = some entry) :
    registry.catalog.describeDeclaration id = entry.written := by
  obtain ⟨declaration, declared, described⟩ := holds.declaration id entry found
  have extended := holds.map_describeParent found described.superclass
  have implemented := holds.map_describeParent found described.interfaces
  have superclass : registry.catalog.superclass id =
      declaration.superclass := by
    rw [Catalog.superclass, declared]
  have interfaces : registry.catalog.interfaces id =
      declaration.interfaces := by
    rw [Catalog.interfaces, declared]
  rw [Catalog.describeDeclaration_eq_clauses, interfaces, superclass,
    holds.kind found, holds.name found, holds.params found, extended,
    implemented, Entry.written,
    Entry.interfaceTexts]
  cases kind : entry.kind with
  | classType =>
      simp [plain.toList_superclassText? kind, Kind.keyword,
        String.append_assoc]
  | interfaceType =>
      rw [Entry.superclassText?, kind] at extended ⊢
      have rootless : declaration.superclass = none := by simpa using extended
      simp [rootless, Kind.keyword, Text.clause, String.append_assoc]

end Holds

/-- A catalog that is accepted is shown as it was written.  Each declaration
is its entry without the blanks in the texts of the parents, and each
declared parent is shown as the expression that was read for it, which is
read again from there. -/
theorem describeDeclaration_of_ofEntries
    (loaded : ofEntries entries = .ok registry)
    (found : entryAt? entries id = some entry) :
    registry.catalog.describeDeclaration id = entry.written ∧
      List.Forall₂ (fun text parent => ∃ expr, Expr.read text = .ok expr ∧
          registry.catalog.describeParent id parent = expr.print ∧
          expr.print = withoutBlanks text ∧ Expr.read expr.print = .ok expr)
        entry.parentTexts (registry.catalog.parents id) := by
  have holds := holds_of_ofEntries loaded
  have plain :=
    ((loadable_of_ofEntries loaded).valid entry (mem_of_entryAt? found)).toPlain
  refine ⟨holds.describeDeclaration plain found, ?_⟩
  obtain ⟨declaration, declared, described⟩ := holds.declaration id entry found
  have parents : registry.catalog.parents id =
      declaration.superclass.toList ++ declaration.interfaces := by
    rw [Catalog.parents, Catalog.superclass, Catalog.interfaces, declared]
  rw [plain.parentTexts_eq, parents]
  refine (List.rel_append described.superclass described.interfaces).imp
    fun text parent written => ?_
  obtain ⟨expr, read, shown⟩ := holds.describeParent_of_writtenAs found written
  exact ⟨expr, read, shown, Expr.print_of_read read,
    Expr.read_print_of_read read⟩

end Registry

/-- A class with the name that the parameters of the interfaces have as well. -/
def shadowingEntries : List Entry :=
  [⟨"E", .classType, [], [], []⟩, ⟨"List", .interfaceType, ["E"], [], []⟩,
    ⟨"Lists", .interfaceType, ["E"], ["List< List<E> >"], []⟩,
    ⟨"Names", .classType, [], [" E"], ["Lists< E >", "List<Names>"]⟩]

/-- The `E` of `Lists` is its parameter, and the `E` of `Names` is the class. -/
theorem describeDeclaration_of_ofEntries_shadowing :
    ∃ registry, Registry.ofEntries shadowingEntries = .ok registry ∧
      (∀ parent ∈ registry.catalog.parents 3, parent.term.Mentions 0) ∧
      registry.catalog.describeDeclaration 3 =
        "interface Lists<E> extends List<List<E>>" ∧
      (∀ parent ∈ registry.catalog.parents 4, ¬ parent.term.Mentions 0) ∧
      registry.catalog.describeDeclaration 4 =
        "class Names extends E implements Lists<E>,List<Names>" := by
  have accepted :
      (Registry.ofEntries shadowingEntries).toOption.any (fun registry =>
        decide
          ((∀ parent ∈ registry.catalog.parents 3, parent.term.Mentions 0) ∧
            ∀ parent ∈ registry.catalog.parents 4,
              ¬ parent.term.Mentions 0)) = true := by
    decide +kernel
  cases loaded : Registry.ofEntries shadowingEntries with
  | error error =>
      rw [loaded] at accepted
      cases accepted
  | ok registry =>
      rw [loaded] at accepted
      obtain ⟨mentioned, unmentioned⟩ := of_decide_eq_true accepted
      exact ⟨registry, rfl, mentioned,
        (Registry.describeDeclaration_of_ofEntries loaded rfl).1.trans
          (by decide +kernel),
        unmentioned,
        (Registry.describeDeclaration_of_ofEntries loaded rfl).1.trans
          (by decide +kernel)⟩

end NominalTypes
