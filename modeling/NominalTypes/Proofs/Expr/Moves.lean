import NominalTypes.Proofs.Expr.Grammar

namespace NominalTypes.Expr

open NominalTypes.Text

/-! What one character after the other makes of what has been read. -/

namespace Focus

def name? : Focus → Option String
  | .awaiting => none
  | .spelling name => some name
  | .spelled name => some name
  | .complete _ => none

/-- The focus behind a blank. -/
def settled : Focus → Focus
  | .spelling name => .spelled name
  | focus => focus

@[simp] theorem expr?_settled (focus : Focus) :
    focus.settled.expr? = focus.expr? := by
  cases focus <;> rfl

@[simp] theorem name?_settled (focus : Focus) :
    focus.settled.name? = focus.name? := by
  cases focus <;> rfl

@[simp] theorem settled_settled (focus : Focus) :
    focus.settled.settled = focus.settled := by
  cases focus <;> rfl

theorem expr?_of_name? {focus : Focus} {name : String}
    (named : focus.name? = some name) :
    focus.expr? = some (.named name []) := by
  cases focus <;> cases named <;> rfl

end Focus

theorem continuesName_of_isBlank {c : Char} (blank : isBlank c = true) :
    continuesName c = false := by
  rw [Bool.eq_false_iff]
  intro continues
  cases blank.symm.trans (isBlank_of_continuesName continues)

namespace Progress

/-! One character. -/

/-- What a character can change. -/
inductive Moves : Progress → Char → Progress → Prop
  | blank {frames : List Frame} {focus : Focus} {c : Char}
      (blank : isBlank c = true) :
      Moves ⟨frames, focus⟩ c ⟨frames, focus.settled⟩
  | hole {frames : List Frame} :
      Moves ⟨frames, .awaiting⟩ '?' ⟨frames, .complete .hole⟩
  | first {frames : List Frame} {c : Char} (starts : startsName c = true) :
      Moves ⟨frames, .awaiting⟩ c ⟨frames, .spelling (String.singleton c)⟩
  | spell {frames : List Frame} {name : String} {c : Char}
      (continues : continuesName c = true) :
      Moves ⟨frames, .spelling name⟩ c ⟨frames, .spelling (name.push c)⟩
  | opening {frames : List Frame} {focus : Focus} {name : String}
      (named : focus.name? = some name) (room : frames.length < maxDepth) :
      Moves ⟨frames, focus⟩ '<' ⟨⟨name, []⟩ :: frames, .awaiting⟩
  | comma {frame : Frame} {frames : List Frame} {focus : Focus} {expr : Expr}
      (read : focus.expr? = some expr) :
      Moves ⟨frame :: frames, focus⟩ ','
        ⟨⟨frame.name, expr :: frame.args⟩ :: frames, .awaiting⟩
  | closing {frame : Frame} {frames : List Frame} {focus : Focus} {expr : Expr}
      (read : focus.expr? = some expr) :
      Moves ⟨frame :: frames, focus⟩ '>'
        ⟨frames, .complete (.named frame.name (expr :: frame.args).reverse)⟩

/-- What a character comes to: a move, or a refusal.  Only a bracket behind a
name can be too much. -/
def Follows (progress : Progress) (c : Char) : Except Refusal Progress → Prop
  | .ok next => progress.Moves c next
  | .error .impossible => True
  | .error .tooDeep =>
    c = '<' ∧ maxDepth ≤ progress.frames.length ∧
      ∃ name, progress.focus.name? = some name

variable {frames : List Frame} {focus : Focus} {c : Char}
  {progress next : Progress}

theorem follows_afterExpr {expr : Expr} (read : focus.expr? = some expr)
    (settles : isBlank c = true → focus.settled = .complete expr) :
    Follows ⟨frames, focus⟩ c (afterExpr frames expr c) := by
  unfold afterExpr
  split
  · rename_i blank
    rw [← settles blank]
    exact .blank blank
  · cases frames with
    | nil => trivial
    | cons frame frames =>
        dsimp only
        split
        · rename_i comma
          rw [beq_iff_eq.mp comma]
          exact .comma read
        · split
          · rename_i closing
            rw [beq_iff_eq.mp closing]
            exact .closing read
          · trivial

theorem follows_afterName {name : String} (named : focus.name? = some name)
    (settles : focus.settled = .spelled name) :
    Follows ⟨frames, focus⟩ c (afterName frames name c) := by
  rw [afterName]
  split
  · rename_i opening
    rw [beq_iff_eq.mp opening]
    split
    · rename_i room
      exact .opening named room
    · rename_i full
      exact ⟨rfl, Nat.le_of_not_lt full, name, named⟩
  · split
    · rename_i blank
      rw [← settles]
      exact .blank blank
    · rename_i visible
      exact follows_afterExpr (Focus.expr?_of_name? named) fun blank =>
        absurd blank visible

theorem follows_step (progress : Progress) (c : Char) :
    progress.Follows c (progress.step c) := by
  obtain ⟨frames, focus⟩ := progress
  cases focus with
  | awaiting =>
      simp only [step]
      split
      · rename_i blank
        exact .blank blank
      · split
        · rename_i hole
          rw [beq_iff_eq.mp hole]
          exact .hole
        · split
          · rename_i starts
            exact .first starts
          · trivial
  | spelling name =>
      simp only [step]
      split
      · rename_i continues
        exact .spell continues
      · exact follows_afterName rfl rfl
  | spelled name => exact follows_afterName rfl rfl
  | complete expr => exact follows_afterExpr rfl fun _ => rfl

theorem moves_of_step (moved : progress.step c = .ok next) :
    progress.Moves c next := by
  have follows := follows_step progress c
  rwa [moved] at follows

theorem step_eq_tooDeep (refused : progress.step c = .error .tooDeep) :
    c = '<' ∧ maxDepth ≤ progress.frames.length ∧
      ∃ name, progress.focus.name? = some name := by
  have follows := follows_step progress c
  rwa [refused] at follows

theorem step_of_moves (moves : progress.Moves c next) :
    progress.step c = .ok next := by
  cases moves with
  | @blank frames focus c blank =>
      have stops := continuesName_of_isBlank blank
      have notOpening : (c == '<') = false := by
        rw [beq_eq_false_iff_ne]
        rintro rfl
        cases blank
      cases focus <;>
        simp [step, afterName, afterExpr, Focus.settled, blank,
          stops, notOpening]
  | hole => rfl
  | @first frames c starts =>
      have notHole : (c == '?') = false := by
        rw [beq_eq_false_iff_ne]
        rintro rfl
        exact absurd starts (by decide +kernel)
      simp [step, isBlank_of_startsName starts, notHole, starts]
  | spell continues => simp [step, continues]
  | @opening frames focus name named room =>
      have stops : continuesName '<' = false := by decide +kernel
      cases focus <;> cases named <;> simp [step, afterName, stops, room]
  | comma read => exact step_comma read
  | closing read => exact step_closing read

theorem step_eq_ok_iff : progress.step c = .ok next ↔ progress.Moves c next :=
  ⟨moves_of_step, step_of_moves⟩

/-! Several characters. -/

variable {chars rest : List Char}

theorem reaches_nil_iff : progress.Reaches [] next ↔ progress = next :=
  ⟨Except.ok.inj, fun same => same ▸ .refl _⟩

theorem reaches_cons_iff :
    progress.Reaches (c :: chars) next ↔
      ∃ middle, progress.Moves c middle ∧ middle.Reaches chars next := by
  rw [Reaches, List.foldlM_cons, bind_eq_ok_iff]
  simp only [step_eq_ok_iff, Reaches]

theorem Reaches.invariant {property : Progress → Prop}
    (kept : ∀ progress c next, Moves progress c next → property progress →
      property next)
    (reaches : progress.Reaches chars next) (holds : property progress) :
    property next := by
  induction chars generalizing progress with
  | nil => exact reaches_nil_iff.mp reaches ▸ holds
  | cons c chars ih =>
      obtain ⟨middle, moves, later⟩ := reaches_cons_iff.mp reaches
      exact ih later (kept _ _ _ moves holds)

end Progress

end NominalTypes.Expr
