import Mathlib.Data.List.Sort
import NominalTypes.Proofs.Hierarchy.FirstChain
import NominalTypes.Proofs.Hierarchy.Walk

namespace NominalTypes

/-! The walk finds the first way to every identity further up, and finds them
in their order. -/

open Std (TreeSet)
open Step (Earlier ranks)

/-- The steps of a trail from the bottom up. -/
def Trail.way (trail : Trail) : List Step := trail.steps.reverse

@[simp] theorem Trail.length_way (trail : Trail) :
    trail.way.length = trail.steps.length := by
  simp [way]

@[simp] theorem Trail.way_reverse (id : TypeId) (steps : List Step) :
    (⟨id, steps.reverse⟩ : Trail).way = steps := List.reverse_reverse steps

theorem Trail.eq_of_way {first second : Trail} (ids : first.id = second.id)
    (ways : first.way = second.way) : first = second := by
  cases first
  cases second
  cases ids
  cases List.reverse_injective ways
  rfl

/-- Lists of trails in the order of their ways are equal once they have the
same members. -/
theorem Trail.eq_of_sorted {trails others : List Trail}
    (sorted : trails.Pairwise fun first second => Earlier first.way second.way)
    (othersSorted : others.Pairwise fun first second =>
      Earlier first.way second.way)
    (same : ∀ trail, trail ∈ trails ↔ trail ∈ others) : trails = others := by
  have asymm : Std.Asymm fun first second : Trail =>
      Earlier first.way second.way :=
    ⟨fun _ _ => Earlier.asymm⟩
  exact sorted.eq_of_mem_iff othersSorted same

namespace Catalog

variable {catalog : Catalog} {origin : TypeId}

theorem mem_extend_iff {trail next : Trail} :
    next ∈ catalog.extend trail ↔
      ∃ step ∈ catalog.steps trail.id, next.id = step.parent.id ∧
        next.way = trail.way ++ [step] := by
  simp only [extend, List.mem_map]
  constructor
  · rintro ⟨step, declared, rfl⟩
    exact ⟨step, declared, rfl, List.reverse_cons⟩
  · rintro ⟨step, declared, ids, ways⟩
    exact ⟨step, declared,
      Trail.eq_of_way ids.symm (List.reverse_cons.trans ways.symm)⟩

/-- The walk has come to the end of all the ways up to a length.  On the level
are the first ways of just this length. -/
structure AtLevel (catalog : Catalog) (origin : TypeId) (length : Nat)
    (seen : TreeSet TypeId) (level : List Trail) : Prop where
  seen_iff : ∀ id, id ∈ seen ↔
    ∃ steps, catalog.Chain origin steps id ∧ steps.length ≤ length
  mem_iff : ∀ trail, trail ∈ level ↔
    catalog.FirstChain origin trail.way trail.id ∧ trail.steps.length = length
  sorted : level.Pairwise fun first second => Earlier first.way second.way

theorem atLevel_zero (catalog : Catalog) (origin : TypeId) :
    catalog.AtLevel origin 0 ((∅ : TreeSet TypeId).insert origin)
      [⟨origin, []⟩] := by
  refine ⟨fun id => ?_, fun trail => ?_, List.pairwise_singleton _ _⟩
  · rw [mem_insert_iff, or_iff_left TreeSet.not_mem_emptyc]
    constructor
    · rintro rfl
      exact ⟨[], .nil id, Nat.le_refl 0⟩
    · rintro ⟨steps, chain, short⟩
      obtain rfl := List.eq_nil_of_length_eq_zero (Nat.le_zero.mp short)
      cases chain
      rfl
  · rw [List.mem_singleton]
    constructor
    · rintro rfl
      exact ⟨.nil origin, rfl⟩
    · rintro ⟨first, length⟩
      have empty : trail.way = [] :=
        List.eq_nil_of_length_eq_zero (trail.length_way.trans length)
      rw [empty] at first
      refine Trail.eq_of_way ?_ empty
      cases first.chain
      rfl

namespace AtLevel

variable {length : Nat} {seen : TreeSet TypeId} {level : List Trail}
  (reached : catalog.AtLevel origin length seen level)

include reached

theorem chain_of_candidate {trail : Trail}
    (candidate : trail ∈ level.flatMap catalog.extend) :
    catalog.Chain origin trail.way trail.id ∧
      trail.steps.length = length + 1 := by
  obtain ⟨below, onLevel, extended⟩ := List.mem_flatMap.mp candidate
  obtain ⟨step, declared, ids, ways⟩ := mem_extend_iff.mp extended
  obtain ⟨first, length⟩ := (reached.mem_iff below).mp onLevel
  rw [← Trail.length_way, ids, ways]
  exact ⟨first.chain.append_step declared, by simp [length]⟩

theorem candidate_of_first {trail : Trail}
    (first : catalog.FirstChain origin trail.way trail.id)
    (longer : trail.steps.length = length + 1) :
    trail ∈ level.flatMap catalog.extend := by
  rcases trail with ⟨id, steps⟩
  cases steps with
  | nil => cases longer
  | cons step rest =>
      rw [Trail.way, List.reverse_cons] at first
      obtain ⟨middle, below, above⟩ := first.exists_middle
      cases above with
      | cons declared above =>
          cases above
          have onLevel :=
            (reached.mem_iff ⟨middle, rest⟩).mpr ⟨below, Nat.succ.inj longer⟩
          exact List.mem_flatMap.mpr ⟨_, onLevel, List.mem_map_of_mem declared⟩

theorem candidates_sorted :
    (level.flatMap catalog.extend).Pairwise fun first second =>
      Earlier first.way second.way := by
  refine List.pairwise_flatMap.mpr ⟨fun trail _ => ?_, ?_⟩
  · rw [extend, List.pairwise_map]
    refine (steps_pairwise_rank catalog trail.id).imp fun below => ?_
    simpa [Trail.way] using Earlier.of_rank_lt below trail.way
  · refine reached.sorted.imp fun earlier next extended other extendedToo => ?_
    obtain ⟨step, _, _, way⟩ := mem_extend_iff.mp extended
    obtain ⟨stepToo, _, _, wayToo⟩ := mem_extend_iff.mp extendedToo
    rw [way, wayToo]
    exact earlier.append rfl

/-- The first way to a new identity is among the candidates, and no candidate
that leads there comes before it. -/
theorem mem_newcomers_iff (trail : Trail) :
    trail ∈ (newcomers Trail.id seen (level.flatMap catalog.extend)).1 ↔
      catalog.FirstChain origin trail.way trail.id ∧
        trail.steps.length = length + 1 := by
  have first_of_newcomer : ∀ trail,
      trail ∈ (newcomers Trail.id seen (level.flatMap catalog.extend)).1 →
        catalog.FirstChain origin trail.way trail.id ∧
            trail.steps.length = length + 1 := by
    intro trail stays
    obtain ⟨candidate, new⟩ := mem_of_mem_newcomers Trail.id stays
    obtain ⟨chain, longer⟩ := reached.chain_of_candidate candidate
    obtain ⟨steps, first⟩ := exists_firstChain chain
    have notSeen : ¬ steps.length ≤ length := fun short =>
      new ((reached.seen_iff trail.id).mpr ⟨steps, first.chain, short⟩)
    have bound := first.length_le chain
    rw [Trail.length_way] at bound
    have rival : (⟨trail.id, steps.reverse⟩ : Trail) ∈
        level.flatMap catalog.extend :=
      reached.candidate_of_first (by simpa using first) (by simp; omega)
    have same : steps = trail.way := by
      rcases newcomers_first Trail.id reached.candidates_sorted stays rival rfl
        with same | earlier
      · rw [← same, Trail.way_reverse]
      · rw [Trail.way_reverse] at earlier
        rcases first.first trail.way chain with same | later
        · exact same.symm
        · exact absurd later earlier.asymm
    exact ⟨same ▸ first, longer⟩
  refine ⟨first_of_newcomer trail, fun ⟨first, longer⟩ => ?_⟩
  have seenAfter :
      trail.id ∈ (newcomers Trail.id seen (level.flatMap catalog.extend)).2 :=
    mem_seen_of_mem_candidates Trail.id
      (reached.candidate_of_first first longer)
  rcases (mem_seen_newcomers_iff Trail.id _ _ _).mp seenAfter with
    old | ⟨other, stays, ids⟩
  · obtain ⟨steps, chain, short⟩ := (reached.seen_iff trail.id).mp old
    have bound := first.length_le chain
    rw [Trail.length_way] at bound
    omega
  · have same := (ids ▸ (first_of_newcomer other stays).1).unique first
    exact Trail.eq_of_way ids same ▸ stays

theorem next : catalog.AtLevel origin (length + 1)
    (newcomers Trail.id seen (level.flatMap catalog.extend)).2
    (newcomers Trail.id seen (level.flatMap catalog.extend)).1 := by
  refine ⟨fun id => ?_, reached.mem_newcomers_iff,
    reached.candidates_sorted.sublist (newcomers_sublist Trail.id _ _)⟩
  rw [mem_seen_newcomers_iff, reached.seen_iff]
  constructor
  · rintro (⟨steps, chain, short⟩ | ⟨trail, stays, rfl⟩)
    · exact ⟨steps, chain, Nat.le_succ_of_le short⟩
    · obtain ⟨first, longer⟩ := (reached.mem_newcomers_iff trail).mp stays
      exact ⟨trail.way, first.chain, by rw [Trail.length_way, longer]⟩
  · rintro ⟨steps, chain, short⟩
    obtain ⟨first, isFirst⟩ := exists_firstChain chain
    have bound := isFirst.length_le chain
    by_cases old : first.length ≤ length
    · exact .inl ⟨first, isFirst.chain, old⟩
    · refine .inr ⟨⟨id, first.reverse⟩,
        (reached.mem_newcomers_iff _).mpr ⟨?_, ?_⟩, rfl⟩
      · simpa using isFirst
      · rw [List.length_reverse]
        omega

/-- No way is longer than the ways to the last level on which there are any. -/
theorem not_first_of_empty
    (empty : (newcomers Trail.id seen (level.flatMap catalog.extend)).1 = [])
    {target : TypeId} {steps : List Step}
    (first : catalog.FirstChain origin steps target) :
    steps.length ≤ length := by
  by_contra longer
  rw [← List.take_append_drop (length + 1) steps] at first
  obtain ⟨middle, below, _⟩ := first.exists_middle
  have stays :=
    (reached.mem_newcomers_iff ⟨middle, (steps.take (length + 1)).reverse⟩).mpr
      ⟨by simpa using below, by simp; omega⟩
  rw [empty] at stays
  cases stays

theorem mem_visits_iff (levels : Nat) (trail : Trail) :
    trail ∈ visits Trail.id catalog.extend levels seen level ↔
      catalog.FirstChain origin trail.way trail.id ∧
        length < trail.steps.length ∧
        trail.steps.length ≤ length + levels := by
  induction levels generalizing length seen level with
  | zero =>
      rw [visits_zero, iff_false_left List.not_mem_nil]
      rintro ⟨_, longer, short⟩
      omega
  | succ levels ih =>
      rw [visits_succ]
      split
      · rename_i empty
        rw [iff_false_left List.not_mem_nil]
        rintro ⟨first, longer, _⟩
        have bound :=
          reached.not_first_of_empty (List.isEmpty_iff.mp empty) first
        rw [Trail.length_way] at bound
        omega
      · rw [List.mem_append, reached.mem_newcomers_iff, ih reached.next,
          ← and_or_left]
        refine and_congr_right fun _ => ?_
        omega

theorem visits_sorted (levels : Nat) :
    (visits Trail.id catalog.extend levels seen level).Pairwise
      fun first second => Earlier first.way second.way := by
  induction levels generalizing length seen level with
  | zero => exact .nil
  | succ levels ih =>
      rw [visits_succ]
      split
      · exact .nil
      · refine List.pairwise_append.mpr
          ⟨reached.next.sorted, ih reached.next, ?_⟩
        intro first stays second later
        have shorter := ((reached.mem_newcomers_iff first).mp stays).2
        have longer :=
          ((reached.next.mem_visits_iff levels second).mp later).2.1
        refine Step.earlier_iff.mpr (.inl ?_)
        rwa [Trail.length_way, Trail.length_way, shorter]

end AtLevel

theorem trails_eq_visits (catalog : Catalog) (origin : TypeId) :
    catalog.trails origin =
      visits Trail.id catalog.extend (catalog.size + 1)
        ((∅ : TreeSet TypeId).insert origin) [⟨origin, []⟩] := rfl

/-- From as many levels as there are identities on, the number of levels makes
no difference. -/
theorem mem_visits_origin_iff {levels : Nat} (enough : catalog.size ≤ levels)
    {trail : Trail} :
    trail ∈ visits Trail.id catalog.extend levels
        ((∅ : TreeSet TypeId).insert origin) [⟨origin, []⟩] ↔
      catalog.FirstChain origin trail.way trail.id ∧ trail.id ≠ origin := by
  rw [(atLevel_zero catalog origin).mem_visits_iff]
  refine and_congr_right fun first => ?_
  have bound := first.length_le_size
  rw [Trail.length_way] at bound
  constructor
  · rintro ⟨longer, _⟩ rfl
    rw [← Trail.length_way, first.of_self] at longer
    exact Nat.lt_irrefl 0 longer
  · intro proper
    refine ⟨Nat.pos_of_ne_zero fun none => proper ?_, by omega⟩
    have empty : trail.way = [] :=
      List.eq_nil_of_length_eq_zero (trail.length_way.trans none)
    rw [empty] at first
    cases first.chain
    rfl

theorem mem_trails_iff {trail : Trail} :
    trail ∈ catalog.trails origin ↔
      catalog.FirstChain origin trail.way trail.id ∧ trail.id ≠ origin := by
  rw [trails_eq_visits]
  exact mem_visits_origin_iff (Nat.le_succ catalog.size)

theorem trails_sorted (catalog : Catalog) (origin : TypeId) :
    (catalog.trails origin).Pairwise fun first second =>
      Earlier first.way second.way :=
  (atLevel_zero catalog origin).visits_sorted _

/-- The walk ends because nothing new is left, never because its
levels run out. -/
theorem visits_eq_trails {levels : Nat} (enough : catalog.size ≤ levels) :
    visits Trail.id catalog.extend levels ((∅ : TreeSet TypeId).insert origin)
      [⟨origin, []⟩] = catalog.trails origin := by
  refine Trail.eq_of_sorted ((atLevel_zero catalog origin).visits_sorted levels)
    (trails_sorted catalog origin) fun trail => ?_
  rw [mem_visits_origin_iff enough, mem_trails_iff]

theorem nodup_ids_trails (catalog : Catalog) (origin : TypeId) :
    (origin :: (catalog.trails origin).map Trail.id).Nodup := by
  refine List.nodup_cons.mpr ⟨?_, List.pairwise_map.mpr ?_⟩
  · intro member
    obtain ⟨trail, found, back⟩ := List.mem_map.mp member
    exact (mem_trails_iff.mp found).2 back
  · refine (trails_sorted catalog origin).imp_of_mem
      fun found foundToo earlier same => ?_
    have first := (mem_trails_iff.mp found).1
    have again := (mem_trails_iff.mp foundToo).1
    rw [← same] at again
    rw [first.unique again] at earlier
    exact earlier.asymm earlier

theorem path_eq_some_iff {target : TypeId} {steps : List Step} :
    catalog.path origin target = some steps ↔
      catalog.FirstChain origin steps target := by
  rw [path]
  split
  · rename_i self
    subst target
    rw [Option.some.injEq]
    exact ⟨fun empty => empty ▸ .nil origin, fun first => first.of_self.symm⟩
  · rename_i proper
    constructor
    · intro found
      obtain ⟨trail, first, rfl⟩ := Option.map_eq_some_iff.mp found
      obtain rfl : trail.id = target := by simpa using List.find?_some first
      exact (mem_trails_iff.mp (List.mem_of_find?_eq_some first)).1
    · intro first
      have member : (⟨target, steps.reverse⟩ : Trail) ∈ catalog.trails origin :=
        mem_trails_iff.mpr ⟨by simpa using first, Ne.symm proper⟩
      have present :
          ((catalog.trails origin).find? fun trail =>
              trail.id == target).isSome = true :=
        List.find?_isSome.mpr ⟨_, member, BEq.rfl⟩
      obtain ⟨trail, found⟩ := Option.isSome_iff_exists.mp present
      obtain rfl : trail.id = target := by simpa using List.find?_some found
      have again := (mem_trails_iff.mp (List.mem_of_find?_eq_some found)).1
      rw [found, Option.map_some]
      exact congrArg some (again.unique first)

theorem path_chain {target : TypeId} {steps : List Step}
    (found : catalog.path origin target = some steps) :
    catalog.Chain origin steps target :=
  (path_eq_some_iff.mp found).chain

theorem exists_path {target : TypeId}
    (derived : catalog.DerivesFrom origin target) :
    ∃ steps, catalog.path origin target = some steps := by
  obtain ⟨steps, chain⟩ := derived.exists_chain
  obtain ⟨first, isFirst⟩ := exists_firstChain chain
  exact ⟨first, path_eq_some_iff.mpr isFirst⟩

theorem path_isSome_iff (origin target : TypeId) :
    (catalog.path origin target).isSome = true ↔
      catalog.DerivesFrom origin target := by
  rw [Option.isSome_iff_exists]
  exact ⟨fun ⟨_, found⟩ => (path_chain found).derivesFrom, exists_path⟩

theorem derives_iff (id ancestor : TypeId) :
    catalog.derives id ancestor = true ↔ catalog.DerivesFrom id ancestor :=
  path_isSome_iff id ancestor

instance (id ancestor : TypeId) : Decidable (catalog.DerivesFrom id ancestor) :=
  decidable_of_iff _ (derives_iff id ancestor)

/-- There is no path exactly to other identities that no declared parents lead
to.  Otherwise the path is a way there, it visits no identity twice, and every
other way is longer, or as long and later where the two begin to differ.  This
holds with cycles and with undeclared parents as well. -/
theorem path_first (catalog : Catalog) (origin target : TypeId) :
    (catalog.path origin target = none ↔
      target ≠ origin ∧ ¬ catalog.DerivesFrom origin target) ∧
    ∀ steps, catalog.path origin target = some steps ↔
      catalog.Chain origin steps target ∧ (origin = target → steps = []) ∧
        (origin :: steps.map (·.parent.id)).Nodup ∧
        ∀ other, catalog.Chain origin other target →
          steps.length ≤ other.length ∧
            (other.length = steps.length →
              other = steps ∨ List.Lex (· < ·) (ranks steps) (ranks other)) := by
  refine ⟨?_, fun steps => path_eq_some_iff.trans ⟨fun first => ?_, ?_⟩⟩
  · rw [← Option.isNone_iff_eq_none, ← Option.not_isSome, Bool.not_eq_true',
      Bool.eq_false_iff, ne_eq, path_isSome_iff]
    refine ⟨fun apart => ⟨?_, apart⟩, And.right⟩
    rintro rfl
    exact apart .refl
  · refine ⟨first.chain, ?_, first.nodup, fun other chain =>
      ⟨first.length_le chain, ?_⟩⟩
    · rintro rfl
      exact first.of_self
    · intro lengths
      refine (first.first other chain).imp_right fun earlier => ?_
      rcases Step.earlier_iff.mp earlier with shorter | ⟨_, smaller⟩
      · exact absurd lengths (Nat.ne_of_gt shorter)
      · exact smaller
  · rintro ⟨chain, _, _, least⟩
    refine ⟨chain, fun other otherChain => ?_⟩
    obtain ⟨short, smaller⟩ := least other otherChain
    rcases Nat.eq_or_lt_of_le short with same | shorter
    · exact (smaller same.symm).imp_right fun below =>
        Step.earlier_iff.mpr (.inr ⟨same, below⟩)
    · exact .inr (Step.earlier_iff.mpr (.inl shorter))

end Catalog

end NominalTypes
