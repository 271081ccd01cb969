import NominalTypes.Proofs.Session.Recomputation

namespace NominalTypes

open NominalTypes.Text

/-! Printed expressions can be read back. -/

/-- No blank lies in ranges that all end before or begin behind each
range of blanks. -/
theorem Text.isBlank_of_inside {ranges : CodeRanges} {c : Char}
    (apart : ∀ range ∈ ranges, ∀ blanks ∈ blankRanges,
      range.2 < blanks.1 ∨ blanks.2 < range.1)
    (inside : ∃ range ∈ ranges, range.1 ≤ c.toNat ∧ c.toNat ≤ range.2) :
    isBlank c = false := by
  rw [Bool.eq_false_iff]
  intro blank
  obtain ⟨range, member, _⟩ := inside
  obtain ⟨blanks, memberToo, _⟩ := isBlank_iff.mp blank
  have separate := apart range member blanks memberToo
  omega

theorem Text.isBlank_of_isAlphabetic {c : Char}
    (alphabetic : isAlphabetic c = true) : isBlank c = false :=
  isBlank_of_inside (by decide +kernel) (isAlphabetic_iff.mp alphabetic)

namespace Expr

/-- Whether the grammar can read the text as one name. -/
def isName (text : String) : Bool :=
  match text.toList with
  | [] => false
  | c :: rest => startsName c && rest.all continuesName

theorem isBlank_of_startsName {c : Char} (starts : startsName c = true) :
    isBlank c = false := by
  rw [startsName, Bool.or_eq_true, Bool.or_eq_true] at starts
  rcases starts with (alphabetic | underscore) | dollar
  · exact isBlank_of_isAlphabetic alphabetic
  · rw [beq_iff_eq.mp underscore]
    rfl
  · rw [beq_iff_eq.mp dollar]
    rfl

/-- The names are names, and the brackets of the printed form are nested at most
`depth` deep. -/
inductive Readable : Nat → Expr → Prop
  | hole (depth : Nat) : Readable depth .hole
  | name {depth : Nat} {name : String} (valid : isName name = true) :
      Readable depth (.named name [])
  | apply {depth : Nat} {name : String} {args : List Expr}
      (valid : isName name = true)
      (inner : ∀ arg ∈ args, Readable depth arg) :
      Readable (depth + 1) (.named name args)

/-- What has been read when the last character of the printed form has. -/
def focus : Expr → Focus
  | .hole => .complete .hole
  | .named name [] => .spelling name
  | .named name args => .complete (.named name args)

/-- The expression that has been read if nothing more of it comes. -/
def Focus.expr? : Focus → Option Expr
  | .awaiting => none
  | .spelling name => some (.named name [])
  | .spelled name => some (.named name [])
  | .complete expr => some expr

theorem expr?_focus (expr : Expr) : expr.focus.expr? = some expr := by
  match expr with
  | .hole => rfl
  | .named _ [] => rfl
  | .named _ (_ :: _) => rfl

namespace Progress

def Reaches (progress : Progress) (chars : List Char)
    (next : Progress) : Prop :=
  chars.foldlM step progress = .ok next

variable {progress middle next : Progress} {chars others : List Char}
  {frames : List Frame}

theorem Reaches.refl (progress : Progress) : progress.Reaches [] progress := rfl

theorem Reaches.cons {c : Char} (first : progress.step c = .ok middle)
    (later : middle.Reaches chars next) :
    progress.Reaches (c :: chars) next := by
  rw [Reaches, List.foldlM_cons, first]
  exact later

theorem Reaches.single {c : Char} (step : progress.step c = .ok next) :
    progress.Reaches [c] next :=
  .cons step (.refl next)

theorem Reaches.append (first : progress.Reaches chars middle)
    (later : middle.Reaches others next) :
    progress.Reaches (chars ++ others) next := by
  rw [Reaches, List.foldlM_append, first]
  exact later

theorem read_of_reaches (reaches : progress.Reaches chars next) (offset : Nat) :
    ∃ later, progress.read offset chars = next.read later [] := by
  induction chars generalizing progress offset with
  | nil =>
      obtain rfl := Except.ok.inj reaches
      exact ⟨offset, rfl⟩
  | cons c rest ih =>
      rw [Reaches, List.foldlM_cons] at reaches
      cases step : progress.step c with
      | error refusal => rw [step] at reaches; cases reaches
      | ok middle =>
          rw [step] at reaches
          rw [read, step]
          exact ih reaches _

/-! Names. -/

theorem reaches_spelling {spelled : String}
    (continues : chars.all continuesName = true) :
    Reaches ⟨frames, .spelling spelled⟩ chars
      ⟨frames, .spelling (spelled ++ String.ofList chars)⟩ := by
  induction chars generalizing spelled with
  | nil =>
      have unchanged : spelled ++ String.ofList [] = spelled :=
        String.toList_inj.mp (by simp)
      rw [unchanged]
      exact .refl _
  | cons c rest ih =>
      rw [List.all_cons, Bool.and_eq_true] at continues
      have extended : spelled ++ String.ofList (c :: rest) =
          spelled.push c ++ String.ofList rest :=
        String.toList_inj.mp (by simp)
      rw [extended]
      exact .cons (if_pos continues.1) (ih continues.2)

theorem reaches_name {name : String} (valid : isName name = true) :
    Reaches ⟨frames, .awaiting⟩ name.toList ⟨frames, .spelling name⟩ := by
  rw [isName] at valid
  cases chars : name.toList with
  | nil => rw [chars] at valid; cases valid
  | cons c rest =>
      rw [chars, Bool.and_eq_true] at valid
      obtain ⟨starts, continues⟩ := valid
      have notHole : (c == '?') = false := by
        rw [beq_eq_false_iff_ne]
        rintro rfl
        exact absurd starts (by decide +kernel)
      have first : Progress.step ⟨frames, .awaiting⟩ c =
          .ok ⟨frames, .spelling (String.singleton c)⟩ := by
        simp [step, isBlank_of_startsName starts, notHole, starts]
      have whole : name = String.singleton c ++ String.ofList rest :=
        String.toList_inj.mp (by simp [chars])
      rw [whole]
      exact .cons first (reaches_spelling continues)

/-! Whole expressions. -/

/-- A focus from which an expression has been read comes to its end at a comma
or a closing bracket. -/
theorem step_of_expr? {focus : Focus} {expr : Expr} {c : Char}
    (read : focus.expr? = some expr) (stops : continuesName c = false)
    (notOpening : (c == '<') = false) (visible : isBlank c = false) :
    Progress.step ⟨frames, focus⟩ c = afterExpr frames expr c := by
  cases focus <;> cases read <;>
    simp [step, afterName, stops, notOpening, visible]

section Argument

variable {frame : Frame} {focus : Focus} {expr : Expr}

theorem step_comma (read : focus.expr? = some expr) :
    Progress.step ⟨frame :: frames, focus⟩ ',' =
      .ok ⟨⟨frame.name, expr :: frame.args⟩ :: frames, .awaiting⟩ :=
  step_of_expr? read (by decide +kernel) rfl rfl

theorem step_closing (read : focus.expr? = some expr) :
    Progress.step ⟨frame :: frames, focus⟩ '>' =
      .ok ⟨frames, .complete (.named frame.name (expr :: frame.args).reverse)⟩ :=
  step_of_expr? read (by decide +kernel) rfl rfl

end Argument

theorem finish?_eq_some_iff {progress : Progress} {expr : Expr} :
    progress.finish? = some expr ↔
      progress.frames = [] ∧ progress.focus.expr? = some expr := by
  obtain ⟨frames, focus⟩ := progress
  cases frames <;> cases focus <;> simp [finish?, Focus.expr?]

/-- The arguments that are still to come complete the application
that is open. -/
theorem reaches_args {name : String} (done : List Expr) {first : Expr}
    {rest : List Expr} (each : ∀ arg ∈ first :: rest, ∀ done,
      Reaches ⟨⟨name, done⟩ :: frames, .awaiting⟩ arg.print.toList
        ⟨⟨name, done⟩ :: frames, arg.focus⟩) :
    Reaches ⟨⟨name, done⟩ :: frames, .awaiting⟩
      ((",".intercalate ((first :: rest).map print)).toList ++ ['>'])
      ⟨frames, .complete (.named name (done.reverse ++ first :: rest))⟩ := by
  have read := each first List.mem_cons_self done
  induction rest generalizing done first with
  | nil =>
      have closed :=
        Reaches.single (@step_closing frames ⟨name, done⟩ _ _ first.expr?_focus)
      rw [List.reverse_cons] at closed
      simpa using read.append closed
  | cons second rest ih =>
      have comma :=
        Reaches.single (@step_comma frames ⟨name, done⟩ _ _ first.expr?_focus)
      have later := ih (first :: done) (fun arg member =>
          each arg (List.mem_cons_of_mem _ member))
        (each second (List.mem_cons_of_mem _ List.mem_cons_self) _)
      have all := (read.append comma).append later
      simpa [String.intercalate_cons_cons] using all

theorem reaches_print {depth : Nat} {expr : Expr}
    (readable : expr.Readable depth) (room : frames.length + depth ≤ maxDepth) :
    Reaches ⟨frames, .awaiting⟩ expr.print.toList ⟨frames, expr.focus⟩ := by
  induction readable generalizing frames with
  | hole depth => exact .single rfl
  | @name _ name valid =>
      rw [print_named, List.map_nil, bracketed_nil, String.append_empty]
      exact reaches_name valid
  | @apply depth name args valid inner ih =>
      cases args with
      | nil =>
          rw [print_named, List.map_nil, bracketed_nil, String.append_empty]
          exact reaches_name valid
      | cons first rest =>
          have opened : Progress.step ⟨frames, .spelling name⟩ '<' =
              .ok ⟨⟨name, []⟩ :: frames, .awaiting⟩ := by
            have space : frames.length < maxDepth := by omega
            have stops : continuesName '<' = false := by decide +kernel
            simp [step, stops, afterName, space]
          have arguments : Reaches ⟨⟨name, []⟩ :: frames, .awaiting⟩
              ((",".intercalate ((first :: rest).map print)).toList ++ ['>'])
              ⟨frames, .complete (.named name (first :: rest))⟩ :=
            reaches_args [] fun arg member done =>
              ih arg member (by simp only [List.length_cons]; omega)
          change Reaches _ _ ⟨frames, .complete (.named name (first :: rest))⟩
          simpa [print_named]
            using (reaches_name valid).append (Reaches.cons opened arguments)

end Progress

theorem read_print {expr : Expr} (readable : expr.Readable maxDepth) :
    Expr.read expr.print = .ok expr := by
  have reaches :
      Progress.Reaches ⟨[], .awaiting⟩ expr.print.toList ⟨[], expr.focus⟩ :=
    Progress.reaches_print readable (Nat.zero_add _).le
  obtain ⟨offset, same⟩ := Progress.read_of_reaches reaches 0
  have finished : Progress.finish? ⟨[], expr.focus⟩ = some expr :=
    Progress.finish?_eq_some_iff.mpr ⟨rfl, expr.expr?_focus⟩
  rw [Expr.read, Progress.start, same, Progress.read, finished]

end Expr

end NominalTypes
