import NominalTypes.Proofs.Expr.RoundTrip

namespace NominalTypes

open NominalTypes.Text

/-! The grammar of type expressions: expressions as sequences of tokens, and
texts in which the tokens stand with blanks around them. -/

theorem Text.isBlank_of_isNumeric {c : Char} (numeric : isNumeric c = true) :
    isBlank c = false :=
  isBlank_of_inside (by decide +kernel) (isNumeric_iff.mp numeric)

namespace Expr

theorem isBlank_of_continuesName {c : Char}
    (continues : continuesName c = true) : isBlank c = false := by
  simp only [continuesName, Bool.or_eq_true, beq_iff_eq] at continues
  rcases continues with (((alphabetic | numeric) | rfl) | rfl) | rfl
  · exact isBlank_of_isAlphabetic alphabetic
  · exact isBlank_of_isNumeric numeric
  · rfl
  · rfl
  · rfl

theorem continuesName_of_startsName {c : Char} (starts : startsName c = true) :
    continuesName c = true := by
  simp only [startsName, Bool.or_eq_true] at starts
  simp only [continuesName, Bool.or_eq_true]
  tauto

theorem exists_of_isName {name : String} (valid : isName name = true) :
    ∃ c rest, name.toList = c :: rest ∧ startsName c = true ∧
      rest.all continuesName = true := by
  rw [isName] at valid
  cases chars : name.toList with
  | nil => rw [chars] at valid; cases valid
  | cons c rest =>
      rw [chars, Bool.and_eq_true] at valid
      exact ⟨c, rest, rfl, valid⟩

theorem continuesName_of_isName {name : String} (valid : isName name = true) :
    name.toList.all continuesName = true := by
  obtain ⟨c, rest, chars, starts, continues⟩ := exists_of_isName valid
  rw [chars, List.all_cons, continuesName_of_startsName starts, continues]
  rfl

inductive Token where
  | hole
  | name (spelling : String)
  | opening
  | comma
  | closing

namespace Token

def text : Token → List Char
  | .hole => ['?']
  | .name spelling => spelling.toList
  | .opening => ['<']
  | .comma => [',']
  | .closing => ['>']

def Valid : Token → Prop
  | .name spelling => isName spelling = true
  | _ => True

/-- A name goes on as long as there are characters of names. -/
def EndsBefore : Token → List Char → Prop
  | .name _, rest => ∀ c ∈ rest.head?, continuesName c = false
  | _, _ => True

end Token

/-- The characters are the tokens in their order, with any blanks before,
between and after them. -/
inductive LaidOut : List Token → List Char → Prop
  | nil : LaidOut [] []
  | blank {c : Char} {tokens : List Token} {chars : List Char}
      (blank : isBlank c = true)
      (rest : LaidOut tokens chars) : LaidOut tokens (c :: chars)
  | token {token : Token} {tokens : List Token} {chars : List Char}
      (valid : token.Valid)
      (whole : token.EndsBefore chars) (rest : LaidOut tokens chars) :
      LaidOut (token :: tokens) (token.text ++ chars)

mutual

def tokens : Expr → List Token
  | .hole => [.hole]
  | .named name [] => [.name name]
  | .named name (first :: rest) =>
      .name name :: .opening :: (first.tokens ++ restTokens rest)

/-- The tokens behind the first argument. -/
def restTokens : List Expr → List Token
  | [] => [.closing]
  | arg :: rest => .comma :: (arg.tokens ++ restTokens rest)

end

mutual

/-- How many brackets are open at once. -/
def levels : Expr → Nat
  | .hole => 0
  | .named _ [] => 0
  | .named _ (first :: rest) => max first.levels (restLevels rest) + 1

def restLevels : List Expr → Nat
  | [] => 0
  | arg :: rest => max arg.levels (restLevels rest)

end

theorem restLevels_le_iff (args : List Expr) (depth : Nat) :
    restLevels args ≤ depth ↔ ∀ arg ∈ args, arg.levels ≤ depth := by
  induction args with
  | nil => simp [restLevels]
  | cons arg rest ih => rw [restLevels, max_le_iff, ih, List.forall_mem_cons]

theorem levels_named_le_iff (name : String) (args : List Expr) (depth : Nat) :
    (named name args).levels ≤ depth ↔ ∀ arg ∈ args, arg.levels < depth := by
  cases args with
  | nil => simp [levels]
  | cons first rest =>
      rw [levels, List.forall_mem_cons]
      cases depth with
      | zero => simp
      | succ depth =>
          simp only [Nat.add_le_add_iff_right, max_le_iff, restLevels_le_iff,
            Nat.lt_succ_iff]

/-! Layouts. -/

namespace Token

theorem exists_text {token : Token} (valid : token.Valid) :
    ∃ c rest, token.text = c :: rest ∧ isBlank c = false := by
  cases token with
  | name spelling =>
      obtain ⟨c, rest, chars, starts, _⟩ := exists_of_isName valid
      exact ⟨c, rest, chars, isBlank_of_startsName starts⟩
  | hole | opening | comma | closing => exact ⟨_, _, rfl, rfl⟩

theorem isBlank_of_mem_text {token : Token} (valid : token.Valid) :
    ∀ c ∈ token.text, isBlank c = false := by
  cases token with
  | name spelling =>
      intro c member
      exact isBlank_of_continuesName
        (List.all_eq_true.mp (continuesName_of_isName valid) c member)
  | hole | opening | comma | closing => exact List.forall_mem_singleton.mpr rfl

end Token

namespace LaidOut

variable {token : Token} {tokens others : List Token} {chars : List Char}

theorem all_isBlank (laid : LaidOut [] chars) : chars.all isBlank = true := by
  generalize none : ([] : List Token) = tokens at laid
  induction laid with
  | nil => rfl
  | blank blank _ ih => rw [List.all_cons, blank, ih none]; rfl
  | token => cases none

theorem exists_token (laid : LaidOut (token :: tokens) chars) :
    ∃ blanks rest, chars = blanks ++ (token.text ++ rest) ∧
      blanks.all isBlank = true ∧
      token.Valid ∧ token.EndsBefore rest ∧ LaidOut tokens rest := by
  generalize all : token :: tokens = whole at laid
  induction laid with
  | nil => cases all
  | @blank c _ _ blank _ ih =>
      obtain ⟨blanks, rest, rfl, blanksToo, valid, ends, laid⟩ := ih all
      exact ⟨c :: blanks, rest,
        rfl, by rw [List.all_cons, blank, blanksToo]; rfl, valid, ends, laid⟩
  | @token first _ rest valid ends laid =>
      cases all
      exact ⟨[], rest, rfl, rfl, valid, ends, laid⟩

theorem valid (laid : LaidOut tokens chars) :
    ∀ token ∈ tokens, token.Valid := by
  induction laid with
  | nil => exact List.forall_mem_nil _
  | blank _ _ ih => exact ih
  | token valid _ _ ih => exact List.forall_mem_cons.mpr ⟨valid, ih⟩

theorem filter_eq_flatMap_text (laid : LaidOut tokens chars) :
    chars.filter (fun c => !isBlank c) = tokens.flatMap Token.text := by
  induction laid with
  | nil => rfl
  | blank blank _ ih => rw [List.filter_cons_of_neg (by simp [blank]), ih]
  | token valid _ _ ih =>
      have visible := Token.isBlank_of_mem_text valid
      rw [List.filter_append, ih, List.flatMap_cons, List.filter_eq_self.mpr]
      exact fun c member => by rw [visible c member]; rfl

end LaidOut

/-- A token is recognised by the characters at its beginning, and by
where it ends. -/
theorem Token.eq_of_append_eq {token other : Token} {rest others : List Char}
    (valid : token.Valid) (validToo : other.Valid)
    (ends : token.EndsBefore rest) (endsToo : other.EndsBefore others)
    (same : token.text ++ rest = other.text ++ others) :
    token = other ∧ rest = others := by
  cases token with
  | name spelling =>
      cases other with
      | name otherSpelling =>
          have maximal : ∀ {spelling : String} {rest : List Char},
              isName spelling = true →
              (Token.name spelling).EndsBefore rest →
              (spelling.toList ++ rest).takeWhile continuesName =
                  spelling.toList := by
            intro spelling rest valid ends
            rw [List.takeWhile_append_of_pos
              (List.all_eq_true.mp (continuesName_of_isName valid))]
            cases rest with
            | nil => rw [List.takeWhile_nil, List.append_nil]
            | cons c rest =>
                rw [List.takeWhile_cons_of_neg (by simp [ends c rfl]),
                  List.append_nil]
          have names : spelling.toList = otherSpelling.toList := by
            rw [← maximal valid ends, ← maximal validToo endsToo]
            exact congrArg _ same
          obtain rfl := String.toList_inj.mp names
          exact ⟨rfl, List.append_cancel_left same⟩
      | hole | opening | comma | closing =>
          obtain ⟨c, _, chars, starts, _⟩ := exists_of_isName valid
          change spelling.toList ++ rest = _ at same
          rw [chars] at same
          obtain rfl := (List.cons.inj same).1
          exact absurd starts (by decide +kernel)
  | hole | opening | comma | closing =>
      cases other with
      | name otherSpelling =>
          obtain ⟨c, _, chars, starts, _⟩ := exists_of_isName validToo
          change _ = otherSpelling.toList ++ others at same
          rw [chars] at same
          obtain rfl := (List.cons.inj same).1
          exact absurd starts (by decide +kernel)
      | hole | opening | comma | closing => simp_all [text]

namespace LaidOut

variable {tokens others : List Token} {c : Char} {chars : List Char}

theorem cons_cases (laid : LaidOut tokens (c :: chars)) :
    isBlank c = true ∧ LaidOut tokens chars ∨
      isBlank c = false ∧ ∃ token more rest, tokens = token :: more ∧
        c :: chars = token.text ++ rest ∧ token.Valid ∧ token.EndsBefore rest ∧
        LaidOut more rest := by
  generalize whole : c :: chars = all at laid
  cases laid with
  | nil => cases whole
  | blank blank rest =>
      cases whole
      exact .inl ⟨blank, rest⟩
  | @token token more rest valid ends laid =>
      obtain ⟨first, text, spelled, visible⟩ := Token.exists_text valid
      have same : c = first := by
        rw [spelled] at whole
        exact (List.cons.inj whole).1
      exact .inr ⟨same ▸ visible, token, more, rest, rfl, rfl,
        valid, ends, laid⟩

theorem unique (laid : LaidOut tokens chars) (laidToo : LaidOut others chars) :
    tokens = others := by
  induction laid generalizing others with
  | nil =>
      cases others with
      | nil => rfl
      | cons other others =>
          obtain ⟨blanks, rest, same, _, valid, _⟩ := laidToo.exists_token
          obtain ⟨c, text, spelled, _⟩ := Token.exists_text valid
          simp [spelled] at same
  | blank blank _ ih =>
      rcases laidToo.cons_cases with ⟨_, later⟩ | ⟨visible, _⟩
      · exact ih later
      · cases blank.symm.trans visible
  | @token token tokens rest valid ends _ ih =>
      obtain ⟨c, text, spelled, visible⟩ := Token.exists_text valid
      rw [spelled] at laidToo
      rcases laidToo.cons_cases with
        ⟨blank, _⟩ | ⟨_, other, more, otherRest, rfl, same, validToo,
          endsToo, later⟩
      · cases blank.symm.trans visible
      · obtain ⟨rfl, rfl⟩ := Token.eq_of_append_eq valid validToo ends endsToo
          (by rw [spelled]; exact same)
        rw [ih later]

end LaidOut

/-! Expressions and their tokens. -/

theorem head?_restTokens_append (args : List Expr) (more : List Token) :
    (restTokens args ++ more).head? ≠ some .opening := by
  cases args <;> nofun

theorem restTokens_append_inj {args others : List Expr} {more rest : List Token}
    (each : ∀ arg ∈ args, ∀ other more rest, more.head? ≠ some .opening →
      rest.head? ≠ some .opening → arg.tokens ++ more = other.tokens ++ rest →
      arg = other ∧ more = rest)
    (same : restTokens args ++ more = restTokens others ++ rest) :
    args = others ∧ more = rest := by
  induction args generalizing others with
  | nil =>
      cases others with
      | nil => exact ⟨rfl, (List.cons.inj same).2⟩
      | cons other others => cases same
  | cons arg args ih =>
      cases others with
      | nil => cases same
      | cons other others =>
          simp only [restTokens, List.cons_append, List.append_assoc,
            List.cons.injEq, true_and] at same
          obtain ⟨rfl, later⟩ := each arg List.mem_cons_self other _ _
            (head?_restTokens_append args more)
            (head?_restTokens_append others rest) same
          obtain ⟨rfl, rfl⟩ :=
            ih (fun arg member => each arg (List.mem_cons_of_mem _ member)) later
          exact ⟨rfl, rfl⟩

/-- Tokens show where an expression ends, unless a bracket opens there. -/
theorem tokens_append_inj {expr other : Expr} {more rest : List Token}
    (ends : more.head? ≠ some .opening) (endsToo : rest.head? ≠ some .opening)
    (same : expr.tokens ++ more = other.tokens ++ rest) :
    expr = other ∧ more = rest := by
  induction expr generalizing other more rest with
  | hole =>
      cases other with
      | hole => exact ⟨rfl, (List.cons.inj same).2⟩
      | named name args => cases args <;> cases same
  | named name args ih =>
      cases other with
      | hole => cases args <;> cases same
      | named otherName others =>
          cases args with
          | nil =>
              cases others with
              | nil =>
                  obtain ⟨head, tail⟩ := List.cons.inj same
                  cases head
                  exact ⟨rfl, tail⟩
              | cons =>
                  obtain ⟨_, rfl⟩ := List.cons.inj same
                  exact absurd rfl ends
          | cons first args =>
              cases others with
              | nil =>
                  obtain ⟨_, rfl⟩ := List.cons.inj same
                  exact absurd rfl endsToo
              | cons other others =>
                  simp only [tokens, List.cons_append, List.append_assoc,
                    List.cons.injEq, Token.name.injEq, true_and] at same
                  obtain ⟨rfl, inside⟩ := same
                  obtain ⟨rfl, later⟩ := ih first List.mem_cons_self
                    (head?_restTokens_append args more)
                    (head?_restTokens_append others rest) inside
                  obtain ⟨rfl, rfl⟩ := restTokens_append_inj
                    (fun arg member _ _ _ =>
                      ih arg (List.mem_cons_of_mem _ member)) later
                  exact ⟨rfl, rfl⟩

theorem tokens_injective : Function.Injective tokens := by
  intro expr other same
  refine (@tokens_append_inj expr other [] [] nofun nofun ?_).1
  rw [same]

theorem toList_print (expr : Expr) :
    expr.print.toList = expr.tokens.flatMap Token.text := by
  induction expr with
  | hole => rfl
  | named name args ih =>
      cases args with
      | nil => simp [print_named, tokens, Token.text]
      | cons first rest =>
          have inside :
              (",".intercalate ((first :: rest).map print)).toList ++ ['>'] =
                first.tokens.flatMap Token.text ++
                    (restTokens rest).flatMap Token.text := by
            induction rest generalizing first with
            | nil => simp [ih first List.mem_cons_self, restTokens, Token.text]
            | cons second rest ihRest =>
                have later := ihRest second fun arg member =>
                  ih arg (List.mem_cons_of_mem _ member)
                simp only [List.map_cons, String.intercalate_cons_cons,
                  String.toList_append, List.append_assoc] at later ⊢
                rw [later, ih first List.mem_cons_self]
                simp [restTokens, Token.text]
          simpa [print_named, tokens, Token.text] using inside

theorem mem_tokens_of_mem {name : String} {args : List Expr} {arg : Expr}
    (member : arg ∈ args) {token : Token} (inside : token ∈ arg.tokens) :
    token ∈ (named name args).tokens := by
  have behind : ∀ {rest : List Expr}, arg ∈ rest → token ∈ restTokens rest := by
    intro rest member
    induction rest with
    | nil => cases member
    | cons other rest ih =>
        rw [restTokens, List.mem_cons, List.mem_append]
        rcases List.mem_cons.mp member with rfl | later
        · exact .inr (.inl inside)
        · exact .inr (.inr (ih later))
  cases args with
  | nil => cases member
  | cons first rest =>
      simp only [tokens, List.mem_cons, List.mem_append]
      rcases List.mem_cons.mp member with rfl | later
      · exact .inr (.inr (.inl inside))
      · exact .inr (.inr (.inr (behind later)))

theorem readable_of_tokens {expr : Expr}
    (valid : ∀ token ∈ expr.tokens, token.Valid) {depth : Nat}
    (room : expr.levels ≤ depth) : expr.Readable depth := by
  induction expr generalizing depth with
  | hole => exact .hole depth
  | named name args ih =>
      have spelled : isName name = true := by
        refine valid (.name name) ?_
        cases args <;> exact List.mem_cons_self
      rw [levels_named_le_iff] at room
      cases depth with
      | zero =>
          cases args with
          | nil => exact .name spelled
          | cons first rest =>
              exact absurd (room first List.mem_cons_self) (Nat.not_lt_zero _)
      | succ depth =>
          refine .apply spelled fun arg member => ih arg member ?_ ?_
          · exact fun token inside =>
              valid token (mem_tokens_of_mem member inside)
          · exact Nat.lt_succ_iff.mp (room arg member)

end Expr

end NominalTypes
