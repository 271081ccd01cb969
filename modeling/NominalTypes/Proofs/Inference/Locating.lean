import NominalTypes.Proofs.Inference.Comparison

namespace NominalTypes

/-! Matching finds what it finds in the order of the positions. -/

/-- The findings are those found at the positions, in the order of
the positions. -/
def Locates (found : List Nat → Finding → Prop)
    (findings : List Finding) : Prop :=
  ∃ located : List (List Nat × Finding), located.map Prod.snd = findings ∧
    located.Pairwise (fun first second => first.1 < second.1) ∧
    ∀ position finding, (position, finding) ∈ located ↔ found position finding

namespace Locates

variable {found others : List Nat → Finding → Prop}
  {findings rest : List Finding}

theorem congr (locates : Locates found findings)
    (same : ∀ position finding, found position finding ↔
      others position finding) :
    Locates others findings := by
  obtain ⟨located, listed, sorted, members⟩ := locates
  exact ⟨located, listed, sorted, fun position finding =>
    (members _ _).trans (same _ _)⟩

theorem nil (none : ∀ position finding, ¬found position finding) :
    Locates found [] :=
  ⟨[], rfl, .nil, fun _ _ => ⟨nofun, fun here => absurd here (none _ _)⟩⟩

theorem single {finding : Finding}
    (only : ∀ position other, found position other ↔
      position = [] ∧ other = finding) :
    Locates found [finding] := by
  refine ⟨[([], finding)], rfl, List.pairwise_singleton _ _,
    fun position other => ?_⟩
  rw [only, List.mem_singleton, Prod.mk.injEq]

/-- The findings of a part, at their positions in the whole. -/
theorem cons (locates : Locates found findings) (index : Nat) :
    Locates (fun position finding => ∃ rest, position = index :: rest ∧
        found rest finding)
      findings := by
  obtain ⟨located, listed, sorted, members⟩ := locates
  refine ⟨located.map fun entry => (index :: entry.1, entry.2), ?_, ?_,
    fun position finding => ?_⟩
  · rw [List.map_map]
    exact listed
  · rw [List.pairwise_map]
    exact sorted.imp fun less => List.cons_lt_cons_iff.mpr (.inr ⟨rfl, less⟩)
  · rw [List.mem_map]
    constructor
    · rintro ⟨entry, member, same⟩
      cases same
      exact ⟨entry.1, rfl, (members _ _).mp member⟩
    · rintro ⟨rest, rfl, here⟩
      exact ⟨(rest, finding), (members _ _).mpr here, rfl⟩

theorem append (first : Locates found findings) (second : Locates others rest)
    (ordered : ∀ position finding other later, found position finding →
      others other later →
      position < other) :
    Locates (fun position finding =>
        found position finding ∨ others position finding)
      (findings ++ rest) := by
  obtain ⟨located, listed, sorted, members⟩ := first
  obtain ⟨more, listedToo, sortedToo, membersToo⟩ := second
  refine ⟨located ++ more, ?_, ?_, fun position finding => ?_⟩
  · rw [List.map_append, listed, listedToo]
  · refine List.pairwise_append.mpr
      ⟨sorted, sortedToo, fun entry member other memberToo => ?_⟩
    exact ordered _ _ _ _ ((members _ _).mp member)
      ((membersToo _ _).mp memberToo)
  · rw [List.mem_append, members, membersToo]

theorem mem_iff (locates : Locates found findings) {finding : Finding} :
    finding ∈ findings ↔ ∃ position, found position finding := by
  obtain ⟨located, rfl, _, members⟩ := locates
  rw [List.mem_map]
  constructor
  · rintro ⟨entry, member, rfl⟩
    exact ⟨entry.1, (members _ _).mp member⟩
  · rintro ⟨position, here⟩
    exact ⟨(position, finding), (members _ _).mpr here, rfl⟩

/-- What comes before a finding is what is found at earlier positions. -/
theorem split {before after : List Finding} {finding : Finding}
    (locates : Locates found (before ++ finding :: after)) :
    ∃ position, found position finding ∧
      Locates (fun other earlier => found other earlier ∧ other < position)
        before := by
  obtain ⟨located, listed, sorted, members⟩ := locates
  obtain ⟨front, back, rfl, rfl, listedBack⟩ := List.map_eq_append_iff.mp listed
  obtain ⟨⟨position, _⟩, rest, rfl, rfl, _⟩ :=
    List.map_eq_cons_iff.mp listedBack
  obtain ⟨sortedFront, sortedBack, across⟩ := List.pairwise_append.mp sorted
  refine ⟨position,
    (members _ _).mp (List.mem_append_right _ List.mem_cons_self), front, rfl,
    sortedFront, fun other earlier => ?_⟩
  change _ ↔ found other earlier ∧ other < position
  rw [← members]
  constructor
  · exact fun member =>
      ⟨List.mem_append_left _ member, across _ member _ List.mem_cons_self⟩
  · rintro ⟨member, less⟩
    rcases List.mem_append.mp member with early | late
    · exact early
    · rcases List.mem_cons.mp late with same | later
      · cases same
        exact absurd less (List.lt_irrefl _)
      · exact absurd
          (List.lt_trans less (List.rel_of_pairwise_cons sortedBack later))
          (List.lt_irrefl _)

end Locates

namespace Pattern

/-- What the two sides say where they stand opposite to each other. -/
inductive Tells (catalog : Catalog) (params : List String) :
    Position → Pattern → Ty → Finding → Prop
  | conflict {place : Position} {part : Pattern} {nested : Ty} {id : TypeId}
      (found : part.id? = some id) (different : id ≠ nested.id) :
      Tells catalog params place part nested
        (.conflict (place.mismatch nested.brief (part.describe catalog params)))
  | equation {place : Position} {index : Nat} {nested : Ty} :
      Tells catalog params place (.var index) nested (.equation index nested)

/-- What is found below the heads. -/
def Within (catalog : Catalog) (params : List String) (pattern : Pattern)
    (known : Ty) (position : List Nat) (finding : Finding) : Prop :=
  ∃ place part nested, pattern.Meets known position place part nested ∧
    Tells catalog params place part nested finding

def Shows (catalog : Catalog) (params : List String) (place : Position)
    (pattern : Pattern) (known : Ty) (position : List Nat)
    (finding : Finding) : Prop :=
  position = [] ∧ Tells catalog params place pattern known finding ∨
    pattern.Within catalog params known position finding

variable {catalog : Catalog} {params : List String} {arity : Nat}
  {pattern : Pattern} {known : Ty}

theorem Meets.id?_eq {position : List Nat} {place : Position} {part : Pattern}
    {nested : Ty} (meets : pattern.Meets known position place part nested) :
    pattern.id? = some known.id := by
  cases meets with
  | here same => exact same
  | inside same => exact same

theorem shows_iff_within (same : pattern.id? = some known.id) {place : Position}
    {position : List Nat} {finding : Finding} :
    pattern.Shows catalog params place known position finding ↔
      pattern.Within catalog params known position finding := by
  refine or_iff_right ?_
  rintro ⟨_, tells⟩
  cases tells with
  | conflict found different =>
      exact different (Option.some.inj (found.symm.trans same))
  | equation => cases same

theorem within_iff (same : pattern.id? = some known.id) {position : List Nat}
    {finding : Finding} :
    pattern.Within catalog params known position finding ↔
      ∃ (index : Nat) (arg : Pattern) (inner : Ty),
        pattern.args[index]? = some arg ∧
        known.slots[index]? = some (some inner) ∧
          ∃ rest, position = index :: rest ∧
          arg.Shows catalog params ⟨known.name, index, known.slots.length⟩ inner
            rest finding := by
  constructor
  · rintro ⟨place, part, nested, meets, tells⟩
    cases meets with
    | @here _ _ _ _ index _ left right =>
        exact ⟨index, part, nested, left, Ty.slot?_eq_some_iff.mp right, [],
          rfl, .inl ⟨rfl, tells⟩⟩
    | @inside _ arg _ _ inner _ index rest _ _ left right deeper =>
        exact ⟨index, arg, inner, left,
          Ty.slot?_eq_some_iff.mp right, rest, rfl,
          .inr ⟨place, part, nested, deeper, tells⟩⟩
  · rintro ⟨index, arg, inner, left, right, rest, rfl,
      ⟨rfl, tells⟩ | ⟨place, part, nested, meets, tells⟩⟩
    · exact ⟨_, arg, inner, .here same left (Ty.slot?_eq_some_iff.mpr right), tells⟩
    · exact ⟨place, part, nested,
        .inside same left (Ty.slot?_eq_some_iff.mpr right) meets, tells⟩

theorem locates_findingsAll (owner : String) (count start : Nat)
    (args : List Pattern) (slots : List (Option Ty))
    (each : ∀ (index : Nat) (arg : Pattern) (inner : Ty),
      args[index]? = some arg →
      slots[index]? = some (some inner) → ∀ place : Position,
        Locates (arg.Shows catalog params place inner)
          (arg.findings catalog params place (some inner))) :
    Locates (fun position finding => ∃ (index : Nat) (arg : Pattern) (inner : Ty),
      args[index]? = some arg ∧ slots[index]? = some (some inner) ∧ ∃ rest,
        position = (start + index) :: rest ∧
          arg.Shows catalog params ⟨owner, start + index, count⟩ inner rest finding)
      (findingsAll catalog params owner count start args slots) := by
  induction args generalizing start slots with
  | nil =>
      refine .nil ?_
      rintro position finding ⟨index, arg, inner, left, _⟩
      cases left
  | cons pattern args ih =>
      cases slots with
      | nil =>
          refine .nil ?_
          rintro position finding ⟨index, arg, inner, _, right, _⟩
          cases right
      | cons known slots =>
          rw [findingsAll]
          have later := ih (start + 1) slots fun index arg inner left right =>
            each (index + 1) arg inner left right
          cases known with
          | none =>
              rw [findings_none, List.nil_append]
              refine later.congr fun position finding =>
                Iff.trans ?_ Nat.or_exists_add_one
              simp [Nat.add_assoc, Nat.add_comm 1]
          | some inner =>
              -- Positions in the first slot come before those in
              -- the slots after it.
              have first :=
                (each 0 pattern inner rfl rfl ⟨owner, start, count⟩).cons start
              refine (first.append later ?_).congr fun position finding =>
                Iff.trans ?_ Nat.or_exists_add_one
              · rintro _ _ _ _ ⟨rest, rfl, _⟩ ⟨index, _, _, _, _, more, rfl, _⟩
                exact List.cons_lt_cons_iff.mpr (.inl (by omega))
              · simp [Nat.add_assoc, Nat.add_comm 1]

theorem not_within_of_ne (different : pattern.id? ≠ some known.id)
    {position : List Nat} {finding : Finding}
    (within : pattern.Within catalog params known position finding) :
    False := by
  obtain ⟨_, _, _, meets, _⟩ := within
  exact different meets.id?_eq

theorem locates_findings_var (index : Nat) (place : Position) :
    Locates ((var index).Shows catalog params place known)
      ((var index).findings catalog params place (some known)) := by
  refine .single fun position finding => ⟨?_, ?_⟩
  · rintro (⟨rfl, tells⟩ | within)
    · cases tells with
      | conflict found => cases found
      | equation => exact ⟨rfl, rfl⟩
    · exact (not_within_of_ne (by simp [id?]) within).elim
  · rintro ⟨rfl, rfl⟩
    exact .inl ⟨rfl, .equation⟩

theorem locates_findings_unbound (place : Position) :
    Locates (unbound.Shows catalog params place known)
      (unbound.findings catalog params place (some known)) := by
  refine .nil fun position finding shows => ?_
  rcases shows with ⟨_, tells⟩ | within
  · cases tells with
    | conflict found => cases found
  · exact not_within_of_ne (by simp [id?]) within

theorem locates_findings_of_ne {id : TypeId} (found : pattern.id? = some id)
    (different : id ≠ known.id) (place : Position) :
    Locates (pattern.Shows catalog params place known)
      (pattern.findings catalog params place (some known)) := by
  have apart : pattern.id? ≠ some known.id := fun same =>
    different (Option.some.inj (found.symm.trans same))
  rw [findings_of_ne found different]
  refine .single fun position finding => ⟨?_, ?_⟩
  · rintro (⟨rfl, tells⟩ | within)
    · cases tells with
      | conflict => exact ⟨rfl, rfl⟩
      | equation => cases found
    · exact (not_within_of_ne apart within).elim
  · rintro ⟨rfl, rfl⟩
    exact .inl ⟨rfl, .conflict found different⟩

/-- What matching finds is what the two sides say, in the order of
the positions. -/
theorem locates_findings (sits : pattern.Sits catalog arity)
    (belongs : known.Belongs catalog) (place : Position) :
    Locates (pattern.Shows catalog params place known)
      (pattern.findings catalog params place (some known)) := by
  induction pattern using induction_args generalizing known place with
  | step pattern ih =>
      cases found : pattern.id? with
      | none =>
          cases sits with
          | closed => cases found
          | apply => cases found
          | unbound => exact locates_findings_unbound place
          | @var index => exact locates_findings_var index place
      | some id =>
          by_cases same : id = known.id
          · subst same
            rw [findings_of_eq sits belongs found]
            have each := locates_findingsAll known.name known.slots.length 0
              pattern.args known.slots fun index arg inner left right place =>
                ih arg (List.mem_of_getElem? left)
                  (sits.args arg (List.mem_of_getElem? left))
                  (belongs.bound (List.mem_of_getElem? right)) place
            refine each.congr fun position finding => ?_
            simp only [Nat.zero_add]
            rw [← within_iff found, shows_iff_within found]
          · exact locates_findings_of_ne found same place

theorem locates_findings_args (sits : pattern.Sits catalog arity)
    (belongs : known.Belongs catalog) (same : pattern.id? = some known.id) :
    Locates (pattern.Within catalog params known)
      (findingsAll catalog params known.name known.slots.length 0 pattern.args
        known.slots) := by
  rw [← findings_of_eq sits belongs same ⟨known.name, 0, known.slots.length⟩]
  exact (locates_findings sits belongs _).congr fun _ _ => shows_iff_within same

end Pattern

end NominalTypes
