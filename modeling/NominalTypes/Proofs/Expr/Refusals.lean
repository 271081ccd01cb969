import NominalTypes.Proofs.Expr.Reading

namespace NominalTypes.Expr

open NominalTypes.Text

/-! A text is refused at the first character that cannot be right: up to
there it is the beginning of a text that can be read, and with the
character it is not. -/

/-- The text is the beginning of one that can be read. -/
def Viable (text : String) : Prop :=
  ∃ more expr, Expr.read (text ++ more) = .ok expr

/-- As `Viable`, with no limit on how many brackets are open at once. -/
def ViableUnlimited (text : String) : Prop :=
  ∃ (more : String) (expr : Expr), LaidOut expr.tokens (text ++ more).toList

/-- The fault says where the text goes wrong. -/
def Fault.Explains (text : String) : Fault → Prop
  | .ended => Viable text
  | .unexpected offset found =>
    ∃ before after : String, text = before.push found ++ after ∧
      before.utf8ByteSize = offset ∧
      Viable before ∧ ¬ Viable (before.push found)
  | .tooDeep limit =>
    limit = maxDepth ∧
      ∃ before after : String, text = before.push '<' ++ after ∧
      (∀ shorter : String, shorter.toList <+: before.toList → Viable shorter) ∧
      ¬ Viable (before.push '<') ∧ ViableUnlimited (before.push '<') ∧
      before.toList.count '<' = before.toList.count '>' + limit

/-- What a refused character is answered with. -/
def Refusal.fault (offset : Nat) (c : Char) : Refusal → Fault
  | .impossible => .unexpected offset c
  | .tooDeep => .tooDeep maxDepth

namespace Progress

variable {progress next : Progress} {frames : List Frame}
  {focus : Focus} {c : Char} {chars others : List Char}

theorem reaches_append_iff :
    progress.Reaches (chars ++ others) next ↔
      ∃ middle, progress.Reaches chars middle ∧ middle.Reaches others next := by
  rw [Reaches, List.foldlM_append, bind_eq_ok_iff]
  rfl

theorem Reaches.unique {other : Progress}
    (reaches : progress.Reaches chars next)
    (reachesToo : progress.Reaches chars other) : next = other :=
  Except.ok.inj (reaches.symm.trans reachesToo)

/-! Completing what has been read. -/

/-- The expression once all open brackets are closed behind it. -/
def closeAll : List Frame → Expr → Expr
  | [], expr => expr
  | frame :: frames, expr =>
      closeAll frames (.named frame.name (expr :: frame.args).reverse)

theorem tokens_closeAll (frames : List Frame) (expr : Expr) :
    (closeAll frames expr).tokens =
      openTokens frames ++
        (expr.tokens ++ List.replicate frames.length .closing) := by
  induction frames generalizing expr with
  | nil => simp [closeAll, openTokens]
  | cons frame frames ih =>
      rw [closeAll, ih, List.reverse_cons, tokens_named_append_singleton]
      simp [openTokens, List.replicate_succ]

theorem levels_closeAll (fit : FramesFit frames) {expr : Expr}
    (room : expr.levels + frames.length ≤ maxDepth) :
    (closeAll frames expr).levels ≤ maxDepth := by
  induction frames generalizing expr with
  | nil => exact room
  | cons frame frames ih =>
      have closed : Moves ⟨frame :: frames, .complete expr⟩ '>' _ :=
        .closing rfl
      have fits : Fits ⟨frame :: frames, .complete expr⟩ :=
        ⟨fit, by rintro _ ⟨⟩; exact room⟩
      exact ih fit.2.2 ((fits.moves closed).focus _ rfl)

theorem laidOut_replicate_closing (count : Nat) :
    LaidOut (List.replicate count .closing) (List.replicate count '>') := by
  induction count with
  | zero => exact .nil
  | succ count ih => exact .token trivial trivial ih

theorem exists_leads_closeAll (frames : List Frame) (focus : Focus) :
    ∃ more, Leads ⟨frames, focus⟩
      (closeAll frames (focus.expr?.getD .hole)).tokens more := by
  have closings := laidOut_replicate_closing frames.length
  cases read : focus.expr? with
  | none =>
      obtain rfl : focus = .awaiting := by cases focus <;> cases read; rfl
      refine ⟨'?' :: List.replicate frames.length '>', _,
        tokens_closeAll _ _, ?_⟩
      exact Resumes.awaiting_iff.mpr (.token trivial trivial closings)
  | some expr =>
      refine ⟨List.replicate frames.length '>', _, tokens_closeAll _ _, ?_⟩
      rw [Option.getD_some, ← Focus.tokens_of_expr? read]
      refine .rest ?_ closings
      cases frames with
      | nil => cases focus <;> simp [Focus.EndsBefore]
      | cons frame frames => exact Focus.endsBefore_cons (by decide +kernel) _

theorem Fits.levels_closeAll (fits : progress.Fits) :
    (closeAll progress.frames (progress.focus.expr?.getD .hole)).levels ≤
      maxDepth := by
  refine Progress.levels_closeAll fits.frames ?_
  cases read : progress.focus.expr? with
  | none => simpa [levels] using fits.frames.length_le
  | some expr => exact fits.focus expr read

/-! Counting brackets. -/

theorem Moves.brackets (moves : progress.Moves c next) :
    progress.frames.length + [c].count '<' =
      [c].count '>' + next.frames.length := by
  have otherwise : c ≠ '<' → c ≠ '>' →
      [c].count '<' = 0 ∧ [c].count '>' = 0 := by
    intro notOpening notClosing
    simp [notOpening, notClosing]
  have spelled : continuesName c = true →
      [c].count '<' = 0 ∧ [c].count '>' = 0 := by
    intro continues
    refine otherwise ?_ ?_ <;>
    · rintro rfl
      exact absurd continues (by decide +kernel)
  cases moves with
  | blank blank =>
      obtain ⟨opening, closing⟩ :=
        otherwise (by rintro rfl; cases blank) (by rintro rfl; cases blank)
      simp [opening, closing]
  | hole | comma =>
      obtain ⟨opening, closing⟩ := otherwise (by decide) (by decide)
      simp [opening, closing]
  | first starts =>
      obtain ⟨opening, closing⟩ := spelled (continuesName_of_startsName starts)
      simp [opening, closing]
  | spell continues =>
      obtain ⟨opening, closing⟩ := spelled continues
      simp [opening, closing]
  | opening => simp
  | closing => simp [Nat.add_comm]

theorem Reaches.brackets (reaches : progress.Reaches chars next) :
    progress.frames.length + chars.count '<' =
      chars.count '>' + next.frames.length := by
  induction chars generalizing progress with
  | nil => rw [reaches_nil_iff.mp reaches]; simp
  | cons c chars ih =>
      obtain ⟨middle, moves, later⟩ := reaches_cons_iff.mp reaches
      have first := moves.brackets
      have rest := ih later
      rw [← List.singleton_append, List.count_append, List.count_append]
      omega

/-! Refusals. -/

/-- A text is refused at its end, or at a character that has no place behind
what has been read. -/
theorem exists_refusal_of_read {offset : Nat} {fault : Fault}
    (refused : progress.read offset chars = .error fault) :
    (fault = .ended ∧ ∃ next, progress.Reaches chars next) ∨
      ∃ front c rest next refusal, chars = front ++ c :: rest ∧
        progress.Reaches front next ∧
        next.step c = .error refusal ∧
        fault = refusal.fault
          (offset + (String.ofList front).utf8ByteSize) c := by
  induction chars generalizing progress offset with
  | nil =>
      rw [Progress.read] at refused
      split at refused
      · cases refused
      · cases refused
        exact .inl ⟨rfl, progress, .refl _⟩
  | cons c chars ih =>
      have here : ∀ {refusal : Refusal}, progress.step c = .error refusal →
          fault = refusal.fault offset c → ∃ front found rest next refusal,
            c :: chars = front ++ found :: rest ∧ progress.Reaches front next ∧
            next.step found = .error refusal ∧
            fault = refusal.fault
                (offset + (String.ofList front).utf8ByteSize) found :=
        fun stuck same => ⟨[], c, chars, progress, _, rfl, .refl _, stuck, same⟩
      rw [Progress.read] at refused
      split at refused
      · rename_i middle moved
        rcases ih refused with
          ⟨ended, next, reaches⟩ | ⟨front, found, rest, next, refusal, rfl,
            reaches, stuck, same⟩
        · exact .inl ⟨ended, next, .cons moved reaches⟩
        · refine .inr ⟨c :: front, found, rest, next, refusal, rfl,
            .cons moved reaches, stuck, ?_⟩
          have size : (String.ofList (c :: front)).utf8ByteSize =
              c.utf8Size + (String.ofList front).utf8ByteSize := by
            rw [← List.singleton_append, String.ofList_append,
              String.utf8ByteSize_append]
            simp
          rw [same, size, Nat.add_assoc]
      · rename_i stuck
        cases refused
        exact .inr (here stuck rfl)
      · rename_i stuck
        cases refused
        exact .inr (here stuck rfl)

end Progress

/-! Beginnings. -/

theorem viable_iff_reaches {text : String} :
    Viable text ↔ ∃ next, Progress.start.Reaches text.toList next := by
  constructor
  · rintro ⟨more, expr, read⟩
    obtain ⟨last, reaches, _⟩ := read_eq_ok_iff_reaches.mp read
    rw [String.toList_append] at reaches
    obtain ⟨next, reaches, _⟩ := Progress.reaches_append_iff.mp reaches
    exact ⟨next, reaches⟩
  · rintro ⟨next, reaches⟩
    obtain ⟨more, leads⟩ :=
      Progress.exists_leads_closeAll next.frames next.focus
    have laid := Progress.leads_start_iff.mp (reaches.leads leads)
    refine ⟨String.ofList more, _,
      read_eq_ok_iff.mpr ⟨?_, reaches.fits.levels_closeAll⟩⟩
    rwa [String.toList_append, String.toList_ofList]

theorem viable_of_prefix {text shorter : String} (viable : Viable text)
    (begins : shorter.toList <+: text.toList) : Viable shorter := by
  obtain ⟨more, whole⟩ := begins
  obtain ⟨last, reaches⟩ := viable_iff_reaches.mp viable
  rw [← whole] at reaches
  obtain ⟨next, reaches, _⟩ := Progress.reaches_append_iff.mp reaches
  exact viable_iff_reaches.mpr ⟨next, reaches⟩

section Stuck

variable {before : String} {next : Progress} {c : Char}

theorem not_viable_push {refusal : Refusal}
    (reaches : Progress.start.Reaches before.toList next)
    (stuck : next.step c = .error refusal) : ¬ Viable (before.push c) := by
  intro viable
  obtain ⟨last, reachesToo⟩ := viable_iff_reaches.mp viable
  rw [String.toList_push] at reachesToo
  obtain ⟨middle, reachesToo, later⟩ :=
    Progress.reaches_append_iff.mp reachesToo
  obtain ⟨after, moves, _⟩ := Progress.reaches_cons_iff.mp later
  obtain rfl := reaches.unique reachesToo
  cases stuck.symm.trans (Progress.step_of_moves moves)

theorem viableUnlimited_push_opening {name : String}
    (reaches : Progress.start.Reaches before.toList next)
    (named : next.focus.name? = some name) :
    ViableUnlimited (before.push '<') := by
  obtain ⟨more, leads⟩ :=
    Progress.exists_leads_closeAll (⟨name, []⟩ :: next.frames) .awaiting
  have laid :=
    Progress.leads_start_iff.mp (reaches.leads (Progress.leads_opening named leads))
  exact ⟨String.ofList more, _, by simpa using laid⟩

theorem explains_of_step {text : String} {rest : List Char} {refusal : Refusal}
    (whole : text.toList = before.toList ++ c :: rest)
    (reaches : Progress.start.Reaches before.toList next)
    (stuck : next.step c = .error refusal) :
    (refusal.fault before.utf8ByteSize c).Explains text := by
  have split : text = before.push c ++ String.ofList rest := by
    rw [← String.toList_inj, whole]
    simp
  have viable : Viable before := viable_iff_reaches.mpr ⟨next, reaches⟩
  cases refusal with
  | impossible =>
      exact ⟨before, _, split, rfl, viable, not_viable_push reaches stuck⟩
  | tooDeep =>
      obtain ⟨rfl, full, name, named⟩ := Progress.step_eq_tooDeep stuck
      have count := reaches.brackets
      have limit : next.frames.length = maxDepth :=
        Nat.le_antisymm reaches.fits.frames.length_le full
      rw [limit] at count
      exact ⟨rfl, before, _, split, fun shorter => viable_of_prefix viable,
        not_viable_push reaches stuck,
        viableUnlimited_push_opening reaches named,
        (Nat.zero_add _).symm.trans count⟩

end Stuck

/-- Every refusal says where the text goes wrong: it ends too early, or it can
be read up to a character that cannot stand there, or up to a bracket that only
the limit forbids. -/
theorem read_refusal (text : String)
    (refused : ∀ expr, Expr.read text ≠ .ok expr) :
    ∃! fault, Expr.read text = .error ⟨text, fault⟩ ∧ fault.Explains text := by
  have found : ∃ fault, Progress.start.read 0 text.toList = .error fault := by
    cases read : Progress.start.read 0 text.toList with
    | error fault => exact ⟨fault, rfl⟩
    | ok expr => exact absurd (by rw [Expr.read, read]) (refused expr)
  obtain ⟨fault, found⟩ := found
  have read : Expr.read text = .error ⟨text, fault⟩ := by rw [Expr.read, found]
  refine ⟨fault, ⟨read, ?_⟩, ?_⟩
  · rcases Progress.exists_refusal_of_read found with
      ⟨rfl, reaches⟩ | ⟨front, c, rest, next, refusal, whole,
        reaches, stuck, rfl⟩
    · exact viable_iff_reaches.mpr reaches
    · rw [← @String.toList_ofList front] at whole reaches
      rw [Nat.zero_add]
      exact explains_of_step whole reaches stuck
  · rintro other ⟨readToo, _⟩
    cases read.symm.trans readToo
    rfl

theorem read_refusal_closing :
    (∀ expr, Expr.read "List<é>>" ≠ .ok expr) ∧
      Expr.read "List<é>>" = .error ⟨"List<é>>", .unexpected 8 '>'⟩ ∧
      (Fault.unexpected 8 '>').Explains "List<é>>" := by
  have read : Expr.read "List<é>>" =
      .error ⟨"List<é>>", .unexpected 8 '>'⟩ := by rfl
  have refused : ∀ expr, Expr.read "List<é>>" ≠ .ok expr := by
    intro expr accepted
    cases read.symm.trans accepted
  obtain ⟨fault, ⟨readToo, explains⟩, _⟩ := read_refusal "List<é>>" refused
  cases read.symm.trans readToo
  exact ⟨refused, read, explains⟩

end NominalTypes.Expr
