import NominalTypes.Proofs.Expr.Moves

namespace NominalTypes.Expr

open NominalTypes.Text

/-! The reader accepts the texts of the grammar, and reads the expressions that
the texts are written for. -/

/-! The tokens that have been read. -/

namespace Focus

def tokens : Focus → List Token
  | .awaiting => []
  | .spelling name => [.name name]
  | .spelled name => [.name name]
  | .complete expr => expr.tokens

def EndsBefore : Focus → List Char → Prop
  | .spelling _, rest => ∀ c ∈ rest.head?, continuesName c = false
  | _, _ => True

@[simp] theorem tokens_settled (focus : Focus) :
    focus.settled.tokens = focus.tokens := by
  cases focus <;> rfl

theorem tokens_of_expr? {focus : Focus} {expr : Expr}
    (read : focus.expr? = some expr) : focus.tokens = expr.tokens := by
  cases focus <;> cases read <;> rfl

theorem endsBefore_cons {focus : Focus} {c : Char}
    (stops : continuesName c = false) (rest : List Char) :
    focus.EndsBefore (c :: rest) := by
  cases focus with
  | spelling name => simpa [EndsBefore] using stops
  | awaiting | spelled | complete => trivial

end Focus

/-- The tokens of the applications whose brackets are open. -/
def openTokens : List Frame → List Token
  | [] => []
  | frame :: frames =>
    openTokens frames ++ .name frame.name :: .opening ::
      frame.args.reverse.flatMap fun arg => arg.tokens ++ [.comma]

/-- The focus and the characters after it make up the tokens. -/
inductive Resumes : Focus → List Token → List Char → Prop
  | rest {focus : Focus} {tokens : List Token} {chars : List Char}
      (ends : focus.EndsBefore chars)
      (laid : LaidOut tokens chars) :
      Resumes focus (focus.tokens ++ tokens) chars
  | spell {name : String} {c : Char} {tokens : List Token} {chars : List Char}
      (continues : continuesName c = true)
      (resumes : Resumes (.spelling (name.push c)) tokens chars) :
      Resumes (.spelling name) tokens (c :: chars)

theorem isName_push {name : String} {c : Char} (valid : isName name = true)
    (continues : continuesName c = true) : isName (name.push c) = true := by
  obtain ⟨first, rest, chars, starts, continuesToo⟩ := exists_of_isName valid
  simp [isName, chars, starts, continuesToo, continues]

theorem isName_singleton {c : Char} (starts : startsName c = true) :
    isName (String.singleton c) = true := by
  simp [isName, starts]

namespace Resumes

variable {focus : Focus} {name : String} {tokens : List Token}
  {chars : List Char}

/-- A name that is being spelled is the beginning of its token. -/
theorem laidOut_spelling (resumes : Resumes (.spelling name) tokens chars)
    (valid : isName name = true) : LaidOut tokens (name.toList ++ chars) := by
  generalize spelling : Focus.spelling name = focus at resumes
  induction resumes generalizing name with
  | rest ends laid =>
      subst spelling
      exact .token valid ends laid
  | @spell _ c _ _ continues _ ih =>
      cases spelling
      have laid := ih (isName_push valid continues) rfl
      simpa using laid

theorem awaiting_iff :
    Resumes .awaiting tokens chars ↔ LaidOut tokens chars := by
  constructor
  · rintro ⟨_, laid⟩
    exact laid
  · exact .rest trivial

theorem exists_of_settled (resumes : Resumes focus.settled tokens chars) :
    ∃ rest, tokens = focus.tokens ++ rest ∧ LaidOut rest chars := by
  generalize same : focus.settled = settled at resumes
  cases resumes with
  | rest _ laid => exact ⟨_, by rw [← same, Focus.tokens_settled], laid⟩
  | spell => cases focus <;> cases same

end Resumes

theorem restTokens_append_singleton (args : List Expr) (last : Expr) :
    restTokens (args ++ [last]) =
      .comma :: (args.flatMap (fun arg => arg.tokens ++ [.comma]) ++
        (last.tokens ++ [.closing])) := by
  induction args with
  | nil => rfl
  | cons arg args ih => simp [restTokens, ih]

theorem tokens_named_append_singleton (name : String) (args : List Expr)
    (last : Expr) :
    (named name (args ++ [last])).tokens =
      .name name :: .opening ::
        (args.flatMap (fun arg => arg.tokens ++ [.comma]) ++
          (last.tokens ++ [.closing])) := by
  cases args with
  | nil => rfl
  | cons first rest => simp [tokens, restTokens_append_singleton]

namespace Progress

variable {progress next : Progress} {frames : List Frame} {focus : Focus}
  {tokens : List Token} {chars others : List Char}

/-- The progress and the characters after it make up the tokens. -/
def Leads (progress : Progress) (tokens : List Token)
    (chars : List Char) : Prop :=
  ∃ rest, tokens = openTokens progress.frames ++ rest ∧
    Resumes progress.focus rest chars

theorem leads_start_iff : start.Leads tokens chars ↔ LaidOut tokens chars := by
  constructor
  · rintro ⟨_, rfl, resumes⟩
    exact Resumes.awaiting_iff.mp resumes
  · exact fun laid => ⟨tokens, rfl, Resumes.awaiting_iff.mpr laid⟩

theorem leads_opening {name : String} (named : focus.name? = some name)
    (leads : Leads ⟨⟨name, []⟩ :: frames, .awaiting⟩ tokens chars) :
    Leads ⟨frames, focus⟩ tokens ('<' :: chars) := by
  obtain ⟨rest, rfl, resumes⟩ := leads
  have laid : LaidOut (.opening :: rest) ('<' :: chars) :=
    .token trivial trivial (Resumes.awaiting_iff.mp resumes)
  have resumes :
      Resumes focus (focus.tokens ++ .opening :: rest) ('<' :: chars) :=
    .rest (Focus.endsBefore_cons (by decide +kernel) _) laid
  rw [Focus.tokens_of_expr? (Focus.expr?_of_name? named)] at resumes
  exact ⟨_, by simp [openTokens, Expr.tokens], resumes⟩

theorem leads_of_moves {c : Char} (moves : progress.Moves c next)
    (leads : next.Leads tokens chars) : progress.Leads tokens (c :: chars) := by
  cases moves with
  | blank blank =>
      obtain ⟨_, rfl, resumes⟩ := leads
      obtain ⟨rest, rfl, laid⟩ := resumes.exists_of_settled
      exact ⟨_, rfl,
        .rest (Focus.endsBefore_cons (continuesName_of_isBlank blank) _)
          (.blank blank laid)⟩
  | hole =>
      obtain ⟨_, rfl, ⟨_, laid⟩⟩ := leads
      exact ⟨_, rfl, Resumes.awaiting_iff.mpr (.token trivial trivial laid)⟩
  | first starts =>
      obtain ⟨_, rfl, resumes⟩ := leads
      have laid := resumes.laidOut_spelling (isName_singleton starts)
      exact ⟨_, rfl, Resumes.awaiting_iff.mpr (by simpa using laid)⟩
  | spell continues =>
      obtain ⟨_, rfl, resumes⟩ := leads
      exact ⟨_, rfl, .spell continues resumes⟩
  | opening named => exact leads_opening named leads
  | @comma frame frames focus expr read =>
      obtain ⟨rest, rfl, resumes⟩ := leads
      have laid : LaidOut (.comma :: rest) (',' :: chars) :=
        .token trivial trivial (Resumes.awaiting_iff.mp resumes)
      refine ⟨expr.tokens ++ .comma :: rest, by simp [openTokens], ?_⟩
      rw [← Focus.tokens_of_expr? read]
      exact .rest (Focus.endsBefore_cons (by decide +kernel) _) laid
  | @closing frame frames focus expr read =>
      obtain ⟨_, rfl, resumes⟩ := leads
      obtain ⟨rest, rfl, laid⟩ :=
        @Resumes.exists_of_settled (.complete _) _ _ resumes
      have laid : LaidOut (.closing :: rest) ('>' :: chars) :=
        .token trivial trivial laid
      refine ⟨expr.tokens ++ .closing :: rest, ?_, ?_⟩
      · simp [openTokens, Focus.tokens, tokens_named_append_singleton]
      · rw [← Focus.tokens_of_expr? read]
        exact .rest (Focus.endsBefore_cons (by decide +kernel) _) laid

theorem Reaches.leads (reaches : progress.Reaches chars next)
    (leads : next.Leads tokens others) :
    progress.Leads tokens (chars ++ others) := by
  -- The reading is followed back from its end: what `next` leads to is what was
  -- left to lead to before.
  induction chars generalizing progress with
  | nil => exact reaches_nil_iff.mp reaches ▸ leads
  | cons c chars ih =>
      obtain ⟨middle, moves, later⟩ := reaches_cons_iff.mp reaches
      exact leads_of_moves moves (ih later)

/-! Room for brackets. -/

/-- Every bracket that is open, and every one that was open in an
argument, was allowed. -/
def FramesFit : List Frame → Prop
  | [] => True
  | frame :: frames =>
    frames.length < maxDepth ∧
      (∀ arg ∈ frame.args, arg.levels + frames.length < maxDepth) ∧
      FramesFit frames

structure Fits (progress : Progress) : Prop where
  frames : FramesFit progress.frames
  focus : ∀ expr, progress.focus.expr? = some expr →
    expr.levels + progress.frames.length ≤ maxDepth

theorem FramesFit.length_le (fit : FramesFit frames) :
    frames.length ≤ maxDepth := by
  cases frames with
  | nil => exact Nat.zero_le _
  | cons frame frames => exact fit.1

theorem Fits.moves {c : Char} (moves : progress.Moves c next)
    (fits : progress.Fits) : next.Fits := by
  obtain ⟨frames, focus⟩ := fits
  have unnested : ∀ name : String, (Expr.named name []).levels = 0 :=
    fun _ => rfl
  cases moves with
  | blank =>
      refine ⟨frames, fun expr read => focus expr ?_⟩
      simpa using read
  | hole =>
      refine ⟨frames, ?_⟩
      rintro _ ⟨⟩
      simpa [levels] using frames.length_le
  | first | spell =>
      refine ⟨frames, ?_⟩
      rintro _ ⟨⟩
      simpa [unnested] using frames.length_le
  | opening _ room =>
      refine ⟨⟨room, List.forall_mem_nil _, frames⟩, ?_⟩
      rintro _ ⟨⟩
  | @comma frame rest _ expr read =>
      obtain ⟨room, args, fit⟩ := frames
      refine ⟨⟨room, List.forall_mem_cons.mpr ⟨?_, args⟩, fit⟩, ?_⟩
      · have last := focus expr read
        simp only [List.length_cons] at last
        omega
      · rintro _ ⟨⟩
  | @closing frame rest _ expr read =>
      obtain ⟨room, args, fit⟩ := frames
      refine ⟨fit, ?_⟩
      rintro _ ⟨⟩
      have last := focus expr read
      simp only [List.length_cons] at last
      change _ + rest.length ≤ maxDepth
      have inside :
          (Expr.named frame.name (expr :: frame.args).reverse).levels ≤
            maxDepth - rest.length := by
        rw [levels_named_le_iff]
        intro arg member
        rw [List.mem_reverse, List.mem_cons] at member
        rcases member with rfl | member
        · omega
        · have := args arg member
          omega
      omega

theorem fits_start : start.Fits := ⟨trivial, nofun⟩

theorem Reaches.fits (reaches : start.Reaches chars next) : next.Fits :=
  reaches.invariant (fun _ _ _ moves fits => fits.moves moves) fits_start

/-! Reading tokens. -/

/-- However the tokens are laid out and whatever tokens come after them, the
reader gets through them. -/
def Takes (progress : Progress) (tokens : List Token)
    (post : Progress → Prop) : Prop :=
  ∀ more chars, LaidOut (tokens ++ more) chars →
    ∃ front rest next, chars = front ++ rest ∧
      progress.Reaches front next ∧ post next ∧ LaidOut more rest

theorem Takes.append {first second : List Token}
    {between post : Progress → Prop} (takes : progress.Takes first between)
    (later : ∀ next, between next → next.Takes second post) :
    progress.Takes (first ++ second) post := by
  intro more chars laid
  rw [List.append_assoc] at laid
  obtain ⟨front, _, middle, rfl, reaches, holds, laid⟩ := takes _ _ laid
  obtain ⟨back, rest, next, rfl, reachesToo, holds, laid⟩ :=
    later middle holds _ _ laid
  exact ⟨front ++ back, rest, next, by simp, reaches.append reachesToo,
    holds, laid⟩

theorem Takes.imp {tokens : List Token} {post weaker : Progress → Prop}
    (takes : progress.Takes tokens post)
    (implies : ∀ next, post next → weaker next) :
    progress.Takes tokens weaker := by
  intro more chars laid
  obtain ⟨front, rest, next, split, reaches, holds, laid⟩ :=
    takes more chars laid
  exact ⟨front, rest, next, split, reaches, implies next holds, laid⟩

theorem reaches_blanks {blanks : List Char}
    (blank : blanks.all isBlank = true) :
    ∃ later, (later = focus ∨ later = focus.settled) ∧
      Reaches ⟨frames, focus⟩ blanks ⟨frames, later⟩ := by
  induction blanks generalizing focus with
  | nil => exact ⟨focus, .inl rfl, .refl _⟩
  | cons c blanks ih =>
      rw [List.all_cons, Bool.and_eq_true] at blank
      obtain ⟨later, settled, reaches⟩ := @ih focus.settled blank.2
      rw [Focus.settled_settled, or_self] at settled
      exact ⟨later, .inr settled,
        reaches_cons_iff.mpr ⟨_, .blank blank.1, reaches⟩⟩

theorem takes_token {token : Token} {post : Progress → Prop}
    (step : token.Valid → ∀ later, later = focus ∨ later = focus.settled →
      ∃ next, Reaches ⟨frames, later⟩ token.text next ∧ post next) :
    Takes ⟨frames, focus⟩ [token] post := by
  intro more chars laid
  obtain ⟨blanks, rest, rfl, blank, valid, _, laid⟩ := laid.exists_token
  obtain ⟨later, settled, reaches⟩ := reaches_blanks blank
  obtain ⟨next, reachesToo, holds⟩ := step valid later settled
  exact ⟨blanks ++ token.text, rest, next, by simp, reaches.append reachesToo,
    holds, laid⟩

theorem takes_name (name : String) :
    Takes ⟨frames, .awaiting⟩ [.name name] (· = ⟨frames, .spelling name⟩) := by
  refine takes_token fun valid later settled => ?_
  obtain rfl : later = .awaiting := or_self_iff.mp settled
  exact ⟨_, reaches_name valid, rfl⟩

theorem takes_opening {name : String} (named : focus.name? = some name)
    (room : frames.length < maxDepth) :
    Takes ⟨frames, focus⟩ [.opening]
      (· = ⟨⟨name, []⟩ :: frames, .awaiting⟩) := by
  refine takes_token fun _ later settled =>
    ⟨_, .single (step_of_moves (.opening ?_ room)), rfl⟩
  rcases settled with rfl | rfl <;> simpa using named

variable {frame : Frame} {expr : Expr}

theorem takes_comma (read : focus.expr? = some expr) :
    Takes ⟨frame :: frames, focus⟩ [.comma]
      (· = ⟨⟨frame.name, expr :: frame.args⟩ :: frames, .awaiting⟩) := by
  refine takes_token fun _ later settled =>
    ⟨_, .single (step_of_moves (.comma ?_)), rfl⟩
  rcases settled with rfl | rfl <;> simpa using read

theorem takes_closing (read : focus.expr? = some expr) :
    Takes ⟨frame :: frames, focus⟩ [.closing]
      (· = ⟨frames,
        .complete (.named frame.name (expr :: frame.args).reverse)⟩) := by
  refine takes_token fun _ later settled =>
    ⟨_, .single (step_of_moves (.closing ?_)), rfl⟩
  rcases settled with rfl | rfl <;> simpa using read

/-- The expression has been read inside the open applications, or to
where it may end. -/
def Ends (frames : List Frame) (expr : Expr) (progress : Progress) : Prop :=
  ∃ focus, progress = ⟨frames, focus⟩ ∧ focus.expr? = some expr

theorem takes_restTokens {name : String} {done rest : List Expr} {arg : Expr}
    (each : ∀ arg ∈ rest, ∀ done,
      Takes ⟨⟨name, done⟩ :: frames, .awaiting⟩ arg.tokens
        (Ends (⟨name, done⟩ :: frames) arg))
    (read : focus.expr? = some arg) :
    Takes ⟨⟨name, done⟩ :: frames, focus⟩ (restTokens rest)
      (Ends frames (.named name (done.reverse ++ arg :: rest))) := by
  induction rest generalizing done arg focus with
  | nil =>
      refine (takes_closing read).imp ?_
      rintro _ rfl
      exact ⟨_, rfl, by simp [Focus.expr?]⟩
  | cons second rest ih =>
      have others : Takes ⟨⟨name, arg :: done⟩ :: frames, .awaiting⟩
          (second.tokens ++ restTokens rest)
          (Ends frames (.named name (done.reverse ++ arg :: second :: rest))) := by
        refine (each second List.mem_cons_self (arg :: done)).append ?_
        rintro _ ⟨later, rfl, readToo⟩
        have last := @ih later (arg :: done) second
          (fun arg member => each arg (List.mem_cons_of_mem _ member)) readToo
        rwa [List.reverse_cons, List.append_assoc] at last
      refine (takes_comma read).append ?_
      rintro _ rfl
      exact others

theorem takes_tokens (expr : Expr)
    (room : expr.levels + frames.length ≤ maxDepth) :
    Takes ⟨frames, .awaiting⟩ expr.tokens (Ends frames expr) := by
  induction expr generalizing frames with
  | hole =>
      refine takes_token fun _ later settled => ?_
      obtain rfl : later = .awaiting := or_self_iff.mp settled
      exact ⟨_, .single (step_of_moves .hole), .complete .hole, rfl, rfl⟩
  | named name args ih =>
      have inside : ∀ arg ∈ args, ∀ done,
          Takes ⟨⟨name, done⟩ :: frames, .awaiting⟩ arg.tokens
          (Ends (⟨name, done⟩ :: frames) arg) := by
        intro arg member done
        have bound := (levels_named_le_iff name args _).mp
          (Nat.le_sub_of_add_le room) arg member
        refine ih arg member ?_
        simp only [List.length_cons]
        omega
      cases args with
      | nil => exact (takes_name name).imp fun _ same => ⟨_, same, rfl⟩
      | cons first rest =>
          have space : frames.length < maxDepth := by
            rw [levels] at room
            omega
          have args : Takes ⟨⟨name, []⟩ :: frames, .awaiting⟩
              (first.tokens ++ restTokens rest)
              (Ends frames (.named name (first :: rest))) := by
            refine (inside first List.mem_cons_self []).append ?_
            rintro _ ⟨focus, rfl, read⟩
            exact takes_restTokens
              (fun arg member => inside arg (List.mem_cons_of_mem _ member)) read
          refine (takes_name name).append ?_
          rintro _ rfl
          refine (takes_opening rfl space).append ?_
          rintro _ rfl
          exact args

theorem exists_reaches_of_laidOut {expr : Expr}
    (laid : LaidOut expr.tokens chars) (room : expr.levels ≤ maxDepth) :
    ∃ next, start.Reaches chars next ∧ Ends [] expr next := by
  rw [← List.append_nil expr.tokens] at laid
  obtain ⟨front, rest, _, rfl, reaches, ⟨focus, rfl, read⟩, laid⟩ :=
    @takes_tokens [] expr room [] chars laid
  obtain ⟨later, settled, reachesToo⟩ := reaches_blanks laid.all_isBlank
  refine ⟨_, reaches.append reachesToo, later, rfl, ?_⟩
  rcases settled with rfl | rfl
  · exact read
  · rwa [Focus.expr?_settled]

theorem exists_reaches_of_read {offset : Nat} {expr : Expr}
    (read : progress.read offset chars = .ok expr) :
    ∃ next, progress.Reaches chars next ∧ next.finish? = some expr := by
  induction chars generalizing progress offset with
  | nil =>
      rw [Progress.read] at read
      split at read
      · rename_i finished
        cases read
        exact ⟨progress, .refl _, finished⟩
      · cases read
  | cons c chars ih =>
      rw [Progress.read] at read
      split at read
      · rename_i middle moved
        obtain ⟨next, reaches, finished⟩ := ih read
        exact ⟨next, .cons moved reaches, finished⟩
      · cases read
      · cases read

end Progress

theorem read_eq_ok_iff_reaches {text : String} {expr : Expr} :
    Expr.read text = .ok expr ↔
      ∃ next, Progress.start.Reaches text.toList next ∧ next.Ends [] expr := by
  rw [Expr.read]
  constructor
  · intro read
    split at read
    · rename_i found
      cases read
      obtain ⟨⟨frames, focus⟩, reaches, finished⟩ :=
        Progress.exists_reaches_of_read found
      obtain ⟨rfl, ends⟩ := Progress.finish?_eq_some_iff.mp finished
      exact ⟨_, reaches, focus, rfl, ends⟩
    · cases read
  · rintro ⟨_, reaches, focus, rfl, ends⟩
    obtain ⟨offset, same⟩ := Progress.read_of_reaches reaches 0
    have finished : Progress.finish? ⟨[], focus⟩ = some expr :=
      Progress.finish?_eq_some_iff.mpr ⟨rfl, ends⟩
    rw [same, Progress.read, finished]

theorem read_eq_ok_iff {text : String} {expr : Expr} :
    Expr.read text = .ok expr ↔
      LaidOut expr.tokens text.toList ∧ expr.levels ≤ maxDepth := by
  rw [read_eq_ok_iff_reaches]
  constructor
  · rintro ⟨_, reaches, focus, rfl, ends⟩
    have leads : Progress.Leads ⟨[], focus⟩ expr.tokens [] := by
      refine ⟨expr.tokens, rfl, ?_⟩
      have resumes : Resumes focus (focus.tokens ++ []) [] :=
        .rest (by cases focus <;> simp [Focus.EndsBefore]) .nil
      rwa [List.append_nil, Focus.tokens_of_expr? ends] at resumes
    have laid := Progress.leads_start_iff.mp (reaches.leads leads)
    rw [List.append_nil] at laid
    exact ⟨laid, reaches.fits.focus expr ends⟩
  · rintro ⟨laid, room⟩
    exact Progress.exists_reaches_of_laidOut laid room

/-- The texts that can be read are the tokens of an expression that is not
nested too deeply, with any blanks around them.  The expression is the only one
for which the text can be written, and its printed form is the text without the
blanks, from which the same expression is read again. -/
theorem read_iff_laidOut (text : String) (expr : Expr) :
    (Expr.read text = .ok expr ↔
        LaidOut expr.tokens text.toList ∧ expr.levels ≤ maxDepth) ∧
      (Expr.read text = .ok expr →
        (∀ other : Expr, LaidOut other.tokens text.toList → other = expr) ∧
          expr.print.toList = text.toList.filter (fun c => !isBlank c) ∧
          Expr.read expr.print = .ok expr) := by
  refine ⟨read_eq_ok_iff, fun read => ?_⟩
  obtain ⟨laid, room⟩ := read_eq_ok_iff.mp read
  refine ⟨fun other laidToo => tokens_injective (laidToo.unique laid), ?_, ?_⟩
  · rw [laid.filter_eq_flatMap_text, toList_print]
  · exact read_print (readable_of_tokens laid.valid room)

theorem read_iff_laidOut_map :
    let map : Expr := .named "Map" [.named "String" [], .hole]
    Expr.read " Map<String , ?>" = .ok map ∧
      LaidOut map.tokens " Map<String , ?>".toList ∧
      map.print.toList = "Map<String,?>".toList ∧
        Expr.read map.print = .ok map := by
  intro map
  have read : Expr.read " Map<String , ?>" = .ok map := by rfl
  obtain ⟨accepts, after⟩ := read_iff_laidOut " Map<String , ?>" map
  obtain ⟨_, printed, again⟩ := after read
  exact ⟨read, (accepts.mp read).1, printed.trans (by decide +kernel), again⟩

end NominalTypes.Expr
