import NominalTypes.Proofs.Expr.Grammar

namespace NominalTypes.Expr

open NominalTypes.Text

/-! Different expressions have different texts, whether they are printed or
written as signatures. -/

/-! Printed forms. -/

theorem ends_before_cons {c : Char} (stop : continuesName c = false)
    (chars : List Char) :
    ∀ next ∈ (c :: chars).head?, continuesName next = false := by
  intro next member
  obtain rfl : c = next := Option.some.inj member
  exact stop

theorem ends_before_restTokens (args : List Expr) (chars : List Char) :
    ∀ next ∈ ((restTokens args).flatMap Token.text ++ chars).head?,
      continuesName next = false := by
  cases args with
  | nil => exact ends_before_cons (by decide +kernel) _
  | cons arg rest => exact ends_before_cons (by decide +kernel) _

theorem LaidOut.name {name : String} {more : List Token} {chars : List Char}
    (valid : isName name = true)
    (ends : ∀ next ∈ chars.head?, continuesName next = false)
    (behind : LaidOut more chars) :
    LaidOut (.name name :: more) (name.toList ++ chars) :=
  @LaidOut.token (.name name) more chars valid ends behind

theorem laidOut_restTokens {args : List Expr} {more : List Token}
    {chars : List Char}
    (each : ∀ arg ∈ args, ∀ more chars,
      (∀ next ∈ chars.head?, continuesName next = false) →
      LaidOut more chars → LaidOut (arg.tokens ++ more)
      (arg.tokens.flatMap Token.text ++ chars))
    (behind : LaidOut more chars) :
    LaidOut (restTokens args ++ more)
      ((restTokens args).flatMap Token.text ++ chars) := by
  induction args with
  | nil => exact @LaidOut.token .closing _ _ trivial trivial behind
  | cons arg rest ih =>
      have later := ih fun other member =>
        each other (List.mem_cons_of_mem arg member)
      have here := each arg List.mem_cons_self _ _
        (ends_before_restTokens rest chars) later
      simpa [restTokens, Token.text]
        using @LaidOut.token .comma _ _ trivial trivial here

/-- The tokens of an expression stand in its printed form without blanks, if no
name goes on behind it. -/
theorem laidOut_tokens {expr : Expr} {depth : Nat}
    (readable : expr.Readable depth) {more : List Token} {chars : List Char}
    (ends : ∀ next ∈ chars.head?, continuesName next = false)
    (behind : LaidOut more chars) :
    LaidOut (expr.tokens ++ more)
      (expr.tokens.flatMap Token.text ++ chars) := by
  induction readable generalizing more chars with
  | hole => exact @LaidOut.token .hole _ _ trivial trivial behind
  | name valid => simpa [tokens, Token.text] using behind.name valid ends
  | @apply _ name args valid _ ih =>
      cases args with
      | nil => simpa [tokens, Token.text] using behind.name valid ends
      | cons first rest =>
          have later := laidOut_restTokens
            (fun arg member _ _ ends =>
              ih arg (List.mem_cons_of_mem first member) ends) behind
          have inside :=
            ih first List.mem_cons_self
              (ends_before_restTokens rest chars) later
          have opened := @LaidOut.token .opening _ _ trivial trivial inside
          simpa [tokens, Token.text] using
            opened.name valid (ends_before_cons (by decide +kernel) _)

theorem laidOut_print {expr : Expr} {depth : Nat}
    (readable : expr.Readable depth) :
    LaidOut expr.tokens expr.print.toList := by
  rw [toList_print]
  simpa using @laidOut_tokens expr depth readable [] [] (fun _ member =>
    nomatch member) .nil

theorem print_inj {expr other : Expr} {depth otherDepth : Nat}
    (readable : expr.Readable depth) (readableToo : other.Readable otherDepth) :
    expr.print = other.print ↔ expr = other := by
  refine ⟨fun same => tokens_injective ?_, congrArg print⟩
  exact (same ▸ laidOut_print readable).unique (laidOut_print readableToo)

/-! Signatures. -/

def slashed (c : Char) : Char := if c == '.' then '/' else c

/-- The points can be put back, because no name has slashes. -/
theorem eq_of_map_slashed {name other : String} (valid : isName name = true)
    (validToo : isName other = true)
    (same : name.toList.map slashed = other.toList.map slashed) :
    name = other := by
  have back : ∀ {name : String}, isName name = true →
      (name.toList.map slashed).map (fun c => if c == '/' then '.' else c) =
          name.toList := by
    intro name valid
    rw [List.map_map]
    refine (List.map_congr_left fun c member => ?_).trans (List.map_id _)
    have continues :=
      List.all_eq_true.mp (continuesName_of_isName valid) c member
    have noSlash : c ≠ '/' := by
      rintro rfl
      exact absurd continues (by decide +kernel)
    by_cases point : c = '.'
    · subst point
      rfl
    · simp [slashed, point, noSlash]
  rw [← String.toList_inj, ← back valid, ← back validToo, same]

mutual

/-- The characters of an expression as a class file's signature writes it: those
of the name, and behind them those of the arguments, which nothing separates. -/
def signature : Expr → List Char
  | .hole => ['*']
  | .named name args => 'L' :: (name.toList.map slashed ++ argsSignature args)

def argsSignature : List Expr → List Char
  | [] => [';']
  | first :: rest => '<' :: (first.signature ++ restSignature rest)

def restSignature : List Expr → List Char
  | [] => ['>', ';']
  | arg :: rest => arg.signature ++ restSignature rest

end

theorem restSignature_eq_flatMap (args : List Expr) :
    restSignature args = args.flatMap signature ++ ['>', ';'] := by
  induction args with
  | nil => rfl
  | cons arg rest ih =>
      rw [restSignature, ih, List.flatMap_cons, List.append_assoc]

theorem head?_argsSignature (args : List Expr) (more : List Char) :
    ∃ c rest, argsSignature args ++ more = c :: rest ∧
      (continuesName c || c == '/') = false := by
  cases args with
  | nil => exact ⟨';', more, rfl, by decide +kernel⟩
  | cons first args => exact ⟨'<', _, rfl, by decide +kernel⟩

theorem takeWhile_signature {name : String} (valid : isName name = true)
    (args : List Expr) (more : List Char) :
    (name.toList.map slashed ++ (argsSignature args ++ more)).takeWhile
      (fun c => continuesName c || c == '/') = name.toList.map slashed := by
  rw [List.takeWhile_append_of_pos]
  · obtain ⟨c, rest, whole, stops⟩ := head?_argsSignature args more
    rw [whole, List.takeWhile_cons_of_neg (by simp [stops]), List.append_nil]
  · intro c member
    obtain ⟨letter, letterMember, rfl⟩ := List.mem_map.mp member
    have continues :=
      List.all_eq_true.mp (continuesName_of_isName valid) letter letterMember
    by_cases point : letter = '.'
    · subst point
      rfl
    · simp [slashed, point, continues]

theorem restSignature_append_inj {args others : List Expr}
    {more rest : List Char} (each : ∀ arg ∈ args, ∀ other ∈ others, ∀ more rest,
      arg.signature ++ more = other.signature ++ rest →
        arg = other ∧ more = rest)
    (same : restSignature args ++ more = restSignature others ++ rest) :
    args = others ∧ more = rest := by
  induction args generalizing others with
  | nil =>
      cases others with
      | nil => exact ⟨rfl, List.append_cancel_left same⟩
      | cons other others =>
          cases other <;> simp [restSignature, signature] at same
  | cons arg args ih =>
      cases others with
      | nil => cases arg <;> simp [restSignature, signature] at same
      | cons other others =>
          rw [restSignature, restSignature, List.append_assoc,
            List.append_assoc] at same
          obtain ⟨rfl, later⟩ :=
            each arg List.mem_cons_self other List.mem_cons_self _ _ same
          obtain ⟨rfl, rfl⟩ := ih (fun arg member other memberToo =>
            each arg (List.mem_cons_of_mem _ member) other
              (List.mem_cons_of_mem _ memberToo)) later
          exact ⟨rfl, rfl⟩

theorem argsSignature_append_inj {args others : List Expr}
    {more rest : List Char} (each : ∀ arg ∈ args, ∀ other ∈ others, ∀ more rest,
      arg.signature ++ more = other.signature ++ rest →
        arg = other ∧ more = rest)
    (same : argsSignature args ++ more = argsSignature others ++ rest) :
    args = others ∧ more = rest := by
  cases args with
  | nil =>
      cases others with
      | nil => exact ⟨rfl, List.append_cancel_left same⟩
      | cons other others => cases same
  | cons first args =>
      cases others with
      | nil => cases same
      | cons other others =>
          -- Behind the bracket stand the arguments one after the other.
          have inside : restSignature (first :: args) ++ more =
              restSignature (other :: others) ++ rest := (List.cons.inj same).2
          exact restSignature_append_inj each inside

theorem Readable.named {name : String} {args : List Expr} {depth : Nat}
    (readable : (Expr.named name args).Readable depth) :
    isName name = true ∧ ∀ arg ∈ args, ∃ depth, arg.Readable depth := by
  cases readable with
  | name valid => exact ⟨valid, fun _ member => nomatch member⟩
  | apply valid inner => exact ⟨valid, fun arg member => ⟨_, inner arg member⟩⟩

/-- A signature shows where it ends. -/
theorem signature_append_inj {expr other : Expr} {depth otherDepth : Nat}
    (readable : expr.Readable depth) (readableToo : other.Readable otherDepth)
    {more rest : List Char}
    (same : expr.signature ++ more = other.signature ++ rest) :
    expr = other ∧ more = rest := by
  induction expr generalizing other depth otherDepth more rest with
  | hole =>
      cases other with
      | hole => exact ⟨rfl, List.append_cancel_left same⟩
      | named name args => simp [signature] at same
  | named name args ih =>
      cases other with
      | hole => simp [signature] at same
      | named otherName others =>
          obtain ⟨valid, inner⟩ := readable.named
          obtain ⟨validToo, innerToo⟩ := readableToo.named
          simp only [signature, List.cons_append, List.append_assoc,
            List.cons.injEq, true_and] at same
          have spelled :=
            congrArg (List.takeWhile fun c => continuesName c || c == '/') same
          rw [takeWhile_signature valid,
            takeWhile_signature validToo] at spelled
          obtain rfl := eq_of_map_slashed valid validToo spelled
          obtain ⟨rfl, rfl⟩ :=
            argsSignature_append_inj (fun arg member other memberToo _ _ same => by
              obtain ⟨_, argReadable⟩ := inner arg member
              obtain ⟨_, otherReadable⟩ := innerToo other memberToo
              exact ih arg member argReadable otherReadable same)
                (List.append_cancel_left same)
          exact ⟨rfl, rfl⟩

theorem signature_inj {expr other : Expr} {depth otherDepth : Nat}
    (readable : expr.Readable depth) (readableToo : other.Readable otherDepth) :
    expr.signature = other.signature ↔ expr = other := by
  refine ⟨fun same => ?_, congrArg signature⟩
  exact (@signature_append_inj expr other _ _ readable readableToo [] []
    (congrArg (· ++ []) same)).1

end NominalTypes.Expr
