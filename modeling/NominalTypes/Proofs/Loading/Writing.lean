import NominalTypes.Proofs.Loading.Declaring
import NominalTypes.Proofs.Session.Recomputation

namespace NominalTypes

/-! What the texts of parents stand for among the entries of a catalog. -/

variable {entries : List Entry} {params : List String}

/-- The expression can stand in a declaration with the parameters.  Parameters
hide the types of the same name, and take no arguments; types have as many as
they have parameters. -/
inductive Expr.Fits (entries : List Entry) (params : List String) : Expr → Prop
  | param {name : String} (member : name ∈ params) :
      Fits entries params (.named name [])
  | type {entry : Entry} {args : List Expr} (member : entry ∈ entries)
      (free : entry.name ∉ params)
      (complete : args.length = entry.params.length)
      (fitting : ∀ arg ∈ args, Fits entries params arg) :
      Fits entries params (.named entry.name args)

/-- The expression stands for the term, where entries stand for identities
in their order. -/
inductive Expr.Denotes (entries : List Entry) (params : List String) :
    Expr → Term → Prop
  | param {name : String} {index : Nat} (found : params[index]? = some name) :
      Denotes entries params (.named name []) (.slot index)
  | type {id : TypeId} {entry : Entry} {args : List Expr} {terms : List Term}
      (found : entryAt? entries id = some entry) (free : entry.name ∉ params)
      (each : List.Forall₂ (Denotes entries params) args terms) :
      Denotes entries params (.named entry.name args) (.apply id terms)

/-- The text stands for the parent. -/
def Parent.WrittenAs (entries : List Entry) (params : List String)
    (text : String) (parent : Parent) : Prop :=
  ∃ expr, Expr.read text = .ok expr ∧ expr.Denotes entries params parent.term

theorem exists_forall₂ {α β : Type} {related : α → β → Prop} {items : List α}
    (each : ∀ item ∈ items, ∃ other, related item other) :
    ∃ others, List.Forall₂ related items others := by
  induction items with
  | nil => exact ⟨[], .nil⟩
  | cons item rest ih =>
      obtain ⟨first, holds⟩ := each item List.mem_cons_self
      obtain ⟨others, rest⟩ := ih fun other member =>
        each other (List.mem_cons_of_mem _ member)
      exact ⟨first :: others, .cons holds rest⟩

theorem forall₂_congr_of_mem {α β : Type} {first second : α → β → Prop}
    {items : List α} {others : List β}
    (same : ∀ item ∈ items, ∀ other, first item other ↔ second item other) :
    List.Forall₂ first items others ↔ List.Forall₂ second items others := by
  induction items generalizing others with
  | nil => rw [List.forall₂_nil_left_iff, List.forall₂_nil_left_iff]
  | cons item rest ih =>
      simp only [List.forall₂_cons_left_iff, same item List.mem_cons_self,
        ih fun other member => same other (List.mem_cons_of_mem _ member)]

theorem forall_mem_congr_of_forall₂ {α β : Type} {related : α → β → Prop}
    {first : α → Prop} {second : β → Prop} {items : List α} {others : List β}
    (each : List.Forall₂ related items others)
    (same : ∀ item ∈ items, ∀ other, related item other →
      (first item ↔ second other)) :
    (∀ item ∈ items, first item) ↔ ∀ other ∈ others, second other := by
  induction each with
  | nil => exact iff_of_true nofun nofun
  | @cons item other _ _ holds _ ih =>
      rw [List.forall_mem_cons, List.forall_mem_cons,
        same item List.mem_cons_self other holds, ih fun later member =>
          same later (List.mem_cons_of_mem _ member)]

/-- In a list without repetitions a member stands only where it
is first found. -/
theorem idxOf?_eq_some_iff_getElem? {names : List String}
    (distinct : names.Nodup) (name : String) (index : Nat) :
    names.idxOf? name = some index ↔ names[index]? = some name := by
  rw [List.idxOf?_eq_some_iff, List.getElem?_eq_some_iff]
  constructor
  · rintro ⟨bound, found, _⟩
    exact ⟨bound, found⟩
  · rintro ⟨bound, found⟩
    refine ⟨bound, found, fun other before same => ?_⟩
    have unique :=
      (List.Nodup.getElem_inj_iff distinct).mp (same.trans found.symm)
    exact absurd unique (Nat.ne_of_lt before)

theorem Expr.Fits.exists_denotes {expr : Expr}
    (fits : expr.Fits entries params) :
    ∃ term, expr.Denotes entries params term := by
  induction fits with
  | param member =>
      obtain ⟨index, found⟩ := List.getElem?_of_mem member
      exact ⟨.slot index, .param found⟩
  | type member free _ _ ih =>
      obtain ⟨id, found⟩ := exists_entryAt?_of_mem member
      obtain ⟨terms, each⟩ := exists_forall₂ ih
      exact ⟨.apply id terms, .type found free each⟩

namespace Registry

variable {registry : Registry} (declares : registry.Declares entries)

theorem termsOf_eq_ok_iff {args : List Expr} {terms : List Term} :
    registry.termsOf params args = .ok terms ↔
      List.Forall₂ (fun arg term => registry.termOf params arg = .ok term)
        args terms := by
  induction args generalizing terms with
  | nil =>
      rw [termsOf, List.forall₂_nil_left_iff]
      exact ⟨fun same => (Except.ok.inj same).symm, fun same =>
        congrArg Except.ok same.symm⟩
  | cons arg rest ih =>
      simp only [termsOf, bind_eq_ok_iff, ih, List.forall₂_cons_left_iff, pure,
        Except.pure, Except.ok.injEq, eq_comm (a := terms)]
      constructor
      · rintro ⟨first, found, others, each, same⟩
        exact ⟨first, others, found, each, same⟩
      · rintro ⟨first, others, found, each, same⟩
        exact ⟨first, found, others, each, same⟩

include declares

theorem termOf_eq_ok_iff (distinct : params.Nodup) (expr : Expr) (term : Term) :
    registry.termOf params expr = .ok term ↔
      expr.Denotes entries params term := by
  induction expr generalizing term with
  | hole =>
      rw [termOf]
      exact iff_of_false nofun nofun
  | named name args ih =>
      have each : ∀ terms, registry.termsOf params args = .ok terms ↔
          List.Forall₂ (Expr.Denotes entries params) args terms := by
        intro terms
        rw [termsOf_eq_ok_iff]
        exact forall₂_congr_of_mem ih
      rw [termOf]
      cases param : params.idxOf? name with
      | some index =>
          have standing :=
            (idxOf?_eq_some_iff_getElem? distinct name index).mp param
          have member := List.mem_of_getElem? standing
          cases args with
          | nil =>
              constructor
              · intro same
                obtain rfl := Except.ok.inj same
                exact .param standing
              · rintro (found | ⟨_, free, _⟩)
                · have unique :=
                    (idxOf?_eq_some_iff_getElem? distinct name _).mpr found
                  exact congrArg (Except.ok ∘ Term.slot)
                    (Option.some.inj (param.symm.trans unique))
                · exact absurd member free
          | cons arg rest =>
              refine iff_of_false nofun fun denotes => ?_
              cases denotes with
              | type _ free _ => exact free member
      | none =>
          have free : name ∉ params := List.idxOf?_eq_none_iff.mp param
          cases known : registry.id? name with
          | none =>
              refine iff_of_false nofun ?_
              rintro (found | ⟨found, _, _⟩)
              · exact free (List.mem_of_getElem? found)
              · cases known.symm.trans (declares.id?_name found)
          | some id =>
              simp only [bind_eq_ok_iff, each, pure, Except.pure,
                Except.ok.injEq]
              constructor
              · rintro ⟨terms, denoted, rfl⟩
                obtain ⟨entry, found, rfl⟩ :=
                  (declares.id?_eq_some_iff name id).mp known
                exact .type found free denoted
              · rintro (found | ⟨found, _, denoted⟩)
                · exact absurd (List.mem_of_getElem? found) free
                · obtain rfl :=
                    Option.some.inj (known.symm.trans (declares.id?_name found))
                  exact ⟨_, denoted, rfl⟩

theorem parentOf_eq_ok_iff (distinct : params.Nodup) (text : String)
    (parent : Parent) :
    registry.parentOf params text = .ok parent ↔
      parent.WrittenAs entries params text := by
  rw [parentOf, Parent.WrittenAs]
  cases Expr.read text with
  | error error => exact iff_of_false nofun (fun ⟨_, found, _⟩ => nomatch found)
  | ok expr =>
      simp only [bind_eq_ok_iff, termOf_eq_ok_iff declares distinct,
        Except.ok.injEq, exists_eq_left']
      constructor
      · rintro ⟨term, denotes, same⟩
        cases term with
        | apply id args =>
            obtain rfl := Except.ok.inj same
            exact denotes
        | slot index => cases same
        | closed ty => cases same
      · intro denotes
        exact ⟨_, denotes, rfl⟩

theorem fits_iff_of_denotes {expr : Expr} {term : Term}
    (denotes : expr.Denotes entries params term) :
    expr.Fits entries params ↔
      term.WellFormed registry.catalog params.length := by
  induction expr generalizing term with
  | hole => cases denotes
  | named name args ih =>
      cases denotes with
      | param found =>
          refine iff_of_true (.param (List.mem_of_getElem? found)) (.slot ?_)
          exact (List.getElem?_eq_some_iff.mp found).1
      | @type id entry _ terms found free each =>
          have inner := forall_mem_congr_of_forall₂ each fun arg member _ =>
            ih arg member
          rw [Term.wellFormed_apply_iff, declares.arity found, ← inner,
            ← each.length_eq]
          constructor
          · intro fits
            refine ⟨(declares.contains_iff id).mpr ⟨entry, found⟩, ?_⟩
            generalize named : entry.name = name at fits
            cases fits with
            | param member => exact absurd (named ▸ member) free
            | type member _ complete fitting =>
                obtain rfl := List.inj_on_of_nodup_map declares.distinct
                  (mem_of_entryAt? found) member named
                exact ⟨complete, fitting⟩
          · rintro ⟨_, complete, fitting⟩
            exact .type (mem_of_entryAt? found) free complete fitting

end Registry

end NominalTypes
