import Mathlib.Data.List.Basic
import NominalTypes.Diagnostic.Code
import Std.Data.String.ToNat

namespace NominalTypes

/-! Templates are filled one argument after the other.  Where no place is made
by what is put in, that is as good as to read the template once and to fill all
its places together. -/

/-! Occurrences of places. -/

theorem toList_placeholder (index : Nat) :
    (placeholder index).toList =
      '\x7b' :: (Nat.toDigits 10 index ++ ['\x7d']) := by
  rw [placeholder, String.toList_append, String.toList_append,
    Nat.toString_eq_repr, Nat.toList_repr]
  rfl

theorem isDigit_of_mem_toDigits {index : Nat} {c : Char}
    (member : c ∈ Nat.toDigits 10 index) : c.isDigit = true :=
  Nat.isDigit_of_mem_toDigits (by decide) (by decide) member

theorem takeWhile_toDigits (index : Nat) (rest : List Char) :
    (Nat.toDigits 10 index ++ '\x7d' :: rest).takeWhile Char.isDigit =
      Nat.toDigits 10 index := by
  rw [List.takeWhile_append_of_pos fun c member =>
    isDigit_of_mem_toDigits member]
  exact List.append_nil _

theorem opening_not_mem (index : Nat) :
    '\x7b' ∉ Nat.toDigits 10 index ++ ['\x7d'] := by
  intro member
  rcases List.mem_append.mp member with digit | closing
  · exact absurd (isDigit_of_mem_toDigits digit) (by decide)
  · exact absurd (List.mem_singleton.mp closing) (by decide)

theorem index_eq_of_occurs {index other : Nat} {rest : List Char}
    (occurs : (placeholder index).toList <+:
      (placeholder other).toList ++ rest) : index = other := by
  obtain ⟨behind, same⟩ := occurs
  rw [toList_placeholder, toList_placeholder] at same
  simp only [List.cons_append, List.append_assoc, List.nil_append,
    List.cons.injEq, true_and] at same
  have digits := congrArg (List.takeWhile Char.isDigit) same
  rw [takeWhile_toDigits, takeWhile_toDigits, ← Nat.toList_repr,
    ← Nat.toList_repr, String.toList_inj] at digits
  exact Nat.repr_inj.mp digits

/-! Replacement of one place. -/

section Replace

variable {pattern replacement text rest : List Char}

theorem replaceFrom_eq_drop (skip : Nat) :
    replaceFrom pattern replacement skip text =
      replaceFrom pattern replacement 0 (text.drop skip) := by
  induction text generalizing skip with
  | nil => simp
  | cons c text ih =>
      cases skip with
      | zero => rfl
      | succ skip => exact ih skip

theorem replaceFrom_of_absent {c : Char} (absent : ¬ pattern <+: c :: rest) :
    replaceFrom pattern replacement 0 (c :: rest) =
      c :: replaceFrom pattern replacement 0 rest := by
  rw [← List.isPrefixOf_iff_prefix] at absent
  exact if_neg absent

theorem replaceFrom_of_occurs (nonempty : pattern ≠ []) :
    replaceFrom pattern replacement 0 (pattern ++ rest) =
      replacement ++ replaceFrom pattern replacement 0 rest := by
  obtain ⟨c, others, rfl⟩ := List.exists_cons_of_ne_nil nonempty
  have occurs : (c :: others).isPrefixOf (c :: (others ++ rest)) = true :=
    List.isPrefixOf_iff_prefix.mpr (List.prefix_append _ _)
  rw [List.cons_append, replaceFrom, if_pos occurs, replaceFrom_eq_drop,
    List.length_cons, Nat.add_sub_cancel, List.drop_left]

theorem replaceFrom_of_not_mem {first : Char} {others : List Char}
    (absent : first ∉ text) :
    replaceFrom (first :: others) replacement 0 (text ++ rest) =
      text ++ replaceFrom (first :: others) replacement 0 rest := by
  induction text with
  | nil => rfl
  | cons c text ih =>
      obtain ⟨differs, absent⟩ := List.ne_and_not_mem_of_not_mem_cons absent
      rw [List.cons_append, replaceFrom_of_absent, ih absent, List.cons_append]
      exact fun occurs => differs (List.cons_prefix_cons.mp occurs).1

end Replace

/-! Templates as they are read. -/

/-- The place that a text begins with, of the places below `count`. -/
def placeAt? (count : Nat) (text : List Char) : Option Nat :=
  (List.range count).find? fun index =>
    (placeholder index).toList.isPrefixOf text

theorem placeAt?_eq_some {count index : Nat} {text : List Char}
    (found : placeAt? count text = some index) :
    index < count ∧ (placeholder index).toList <+: text :=
  ⟨List.mem_range.mp (List.mem_of_find?_eq_some found),
    List.isPrefixOf_iff_prefix.mp
      (List.find?_some
        (p := fun index => (placeholder index).toList.isPrefixOf text) found)⟩

theorem absent_of_placeAt? {count : Nat} {text : List Char}
    (missing : placeAt? count text = none) :
    ∀ index < count, ¬ (placeholder index).toList <+: text := by
  intro index bound occurs
  exact List.find?_eq_none.mp missing index (List.mem_range.mpr bound)
    (List.isPrefixOf_iff_prefix.mpr occurs)

namespace Wording

def readFrom (count : Nat) : Nat → List Char → Wording
  | _, [] => []
  | skip + 1, _ :: rest => readFrom count skip rest
  | 0, c :: rest =>
    match placeAt? count (c :: rest) with
    | some index =>
        .arg index :: readFrom count ((placeholder index).length - 1) rest
    | none => .words (String.singleton c) :: readFrom count 0 rest

/-- Reads a template once, from left to right.  The places below `count` are
those of arguments, and every other character stands for itself. -/
def read (count : Nat) (template : String) : Wording :=
  readFrom count 0 template.toList

/-- The wording is how the text reads: a place wherever one begins, and else a
single character. -/
inductive Reads (count : Nat) : List Char → Wording → Prop
  | nil : Reads count [] []
  | place {index : Nat} {rest : List Char} {wording : Wording}
      (bound : index < count) (reads : Reads count rest wording) :
      Reads count ((placeholder index).toList ++ rest) (.arg index :: wording)
  | letter {c : Char} {rest : List Char} {wording : Wording}
      (plain : ∀ index < count, ¬ (placeholder index).toList <+: c :: rest)
      (reads : Reads count rest wording) :
      Reads count (c :: rest) (.words (String.singleton c) :: wording)

theorem reads_readFrom (count skip : Nat) (text : List Char) :
    Reads count (text.drop skip) (readFrom count skip text) := by
  fun_induction readFrom count skip text with
  | case1 skip =>
      rw [List.drop_nil]
      exact .nil
  | case2 skip c rest ih => exact ih
  | case3 c rest index found ih =>
      obtain ⟨bound, behind, text⟩ := placeAt?_eq_some found
      have behind_eq : rest.drop ((placeholder index).length - 1) = behind := by
        rw [toList_placeholder, List.cons_append] at text
        obtain ⟨rfl, rfl⟩ := List.cons.inj text
        rw [← String.length_toList, toList_placeholder, List.length_cons,
          Nat.add_sub_cancel]
        exact List.drop_left
      rw [behind_eq] at ih
      rw [List.drop_zero, ← text]
      exact .place bound ih
  | case4 c rest missing ih => exact .letter (absent_of_placeAt? missing) ih

theorem reads_read (count : Nat) (template : String) :
    Reads count template.toList (read count template) :=
  reads_readFrom count 0 template.toList

/-! Wordings that are filled in part. -/

theorem template_cons (piece : Piece) (wording : Wording) :
    template (piece :: wording) = piece.template ++ template wording :=
  String.join_cons

theorem fill_cons (piece : Piece) (wording : Wording) (args : List String) :
    fill (piece :: wording) args = piece.fill args ++ fill wording args :=
  String.join_cons

/-- The characters of a wording with arguments in the places below `filled`. -/
def letters (args : List String) (filled : Nat)
    (wording : Wording) : List Char :=
  wording.flatMap fun piece =>
    match piece with
    | .words text => text.toList
    | .arg index =>
      (if index < filled then args[index]?.getD ""
        else placeholder index).toList

/-- No place before the last of `count` stands behind a brace, or behind a brace
with digits after it.  `opened` says whether what stands before is such a
beginning of a place. -/
def apart (count : Nat) : Bool → Wording → Bool
  | _, [] => true
  | opened, .arg index :: rest =>
      (!opened || count ≤ index + 1) && apart count false rest
  | opened, .words text :: rest =>
    apart count (text.toList == ['\x7b'] || opened &&
      text.toList.all Char.isDigit) rest

section Reads

variable {args : List String} {filled count : Nat} {text : List Char}
  {wording : Wording}

@[simp] theorem letters_nil : letters args filled [] = [] := rfl

@[simp] theorem letters_words (text : String) :
    letters args filled (.words text :: wording) =
      text.toList ++ letters args filled wording := rfl

theorem letters_arg_of_lt {index : Nat} (bound : index < filled) :
    letters args filled (.arg index :: wording) =
      (args[index]?.getD "").toList ++ letters args filled wording := by
  rw [letters, List.flatMap_cons]
  dsimp only
  rw [if_pos bound]
  rfl

theorem letters_arg_of_le {index : Nat} (bound : filled ≤ index) :
    letters args filled (.arg index :: wording) =
      (placeholder index).toList ++ letters args filled wording := by
  rw [letters, List.flatMap_cons]
  dsimp only
  rw [if_neg (Nat.not_lt.mpr bound)]
  rfl

@[simp] theorem apart_letter (opened : Bool) (c : Char) :
    apart count opened (.words (String.singleton c) :: wording) =
      apart count (c == '\x7b' || opened && c.isDigit) wording := by
  simp [apart]

/-- Reading loses nothing. -/
theorem Reads.letters_zero (reads : Reads count text wording) :
    letters args 0 wording = text := by
  induction reads with
  | nil => rfl
  | place bound reads ih => rw [letters_arg_of_le (Nat.zero_le _), ih]
  | letter plain reads ih =>
      rw [letters_words, ih, String.toList_singleton, List.singleton_append]

theorem Reads.letters_count (reads : Reads args.length text wording) :
    letters args args.length wording = (fill wording args).toList := by
  induction reads with
  | nil => rfl
  | place bound reads ih =>
      rw [letters_arg_of_lt bound, ih, fill_cons, String.toList_append]
      rfl
  | letter plain reads ih =>
      rw [letters_words, ih, fill_cons, String.toList_append]
      rfl

/-- If what stands behind a brace closes a place, it is text of the
template itself. -/
theorem Reads.closes (reads : Reads count text wording) (bound : filled < count)
    (behind : apart count true wording = true) {digits : List Char}
    (numeric : ∀ c ∈ digits, c.isDigit = true)
    (closes : digits ++ ['\x7d'] <+: letters args filled wording) :
    digits ++ ['\x7d'] <+: text := by
  induction reads generalizing digits with
  | nil => exact closes
  | @place index rest wording below reads ih =>
      -- The place is the last one, and it is not filled yet: a brace follows
      -- where a digit has to.
      have last : count ≤ index + 1 := by
        simp only [apart, Bool.not_true, Bool.false_or, Bool.and_eq_true,
          decide_eq_true_eq] at behind
        exact behind.1
      have unfilled : filled ≤ index :=
        Nat.le_of_lt_succ (Nat.lt_of_lt_of_le bound last)
      rw [letters_arg_of_le unfilled, toList_placeholder] at closes
      cases digits with
      | nil => exact absurd (List.cons_prefix_cons.mp closes).1 (by decide)
      | cons digit digits =>
          obtain ⟨rfl, _⟩ := List.cons_prefix_cons.mp closes
          exact absurd (numeric _ List.mem_cons_self) (by decide)
  | @letter c rest wording plain reads ih =>
      rw [letters_words, String.toList_singleton,
        List.singleton_append] at closes
      cases digits with
      | nil =>
          obtain ⟨rfl, _⟩ := List.cons_prefix_cons.mp closes
          exact List.cons_prefix_cons.mpr ⟨rfl, List.nil_prefix⟩
      | cons digit digits =>
          obtain ⟨rfl, others⟩ := List.cons_prefix_cons.mp closes
          rw [apart_letter, numeric _ List.mem_cons_self, Bool.true_and,
            Bool.or_true] at behind
          have later :=
            ih behind
              (fun c member => numeric c (List.mem_cons_of_mem _ member)) others
          exact List.cons_prefix_cons.mpr ⟨rfl, later⟩

/-- When the places before it are filled, a place still occurs only where the
template has it. -/
theorem Reads.replaceFrom_letters (reads : Reads count text wording)
    (bound : filled < count)
    (plain : ∀ index < filled, '\x7b' ∉ (args[index]?.getD "").toList)
    {opened : Bool} (separate : apart count opened wording = true) :
    replaceFrom (placeholder filled).toList (args[filled]?.getD "").toList 0
        (letters args filled wording) =
      letters args (filled + 1) wording := by
  induction reads generalizing opened with
  | nil => exact replaceFrom_nil _ _ _
  | @place index rest wording below reads ih =>
      have later := ih (Bool.and_eq_true_iff.mp separate).2
      rcases Nat.lt_trichotomy index filled with before | rfl | after
      · rw [letters_arg_of_lt before,
          letters_arg_of_lt (Nat.lt_succ_of_lt before), ← later,
          toList_placeholder, replaceFrom_of_not_mem (plain index before)]
      · rw [letters_arg_of_le (Nat.le_refl _),
          letters_arg_of_lt (Nat.lt_succ_self _), ← later,
          replaceFrom_of_occurs]
        rw [toList_placeholder]
        exact List.cons_ne_nil _ _
      · have other : ¬ (placeholder filled).toList <+:
            (placeholder index).toList ++ letters args filled wording :=
              fun occurs =>
          Nat.ne_of_lt after (index_eq_of_occurs occurs)
        rw [letters_arg_of_le (Nat.le_of_lt after),
          letters_arg_of_le after, ← later]
        rw [toList_placeholder index, List.cons_append] at other ⊢
        rw [replaceFrom_of_absent other, toList_placeholder filled,
          replaceFrom_of_not_mem (opening_not_mem index), List.cons_append]
  | @letter c rest wording absent reads ih =>
      rw [apart_letter] at separate
      rw [letters_words, letters_words, String.toList_singleton,
        List.singleton_append, List.singleton_append, ← ih separate,
        replaceFrom_of_absent]
      intro occurs
      rw [toList_placeholder] at occurs
      obtain ⟨rfl, closes⟩ := List.cons_prefix_cons.mp occurs
      have inTemplate :=
        reads.closes bound separate (fun _ => isDigit_of_mem_toDigits) closes
      refine absent filled bound ?_
      rw [toList_placeholder]
      exact List.cons_prefix_cons.mpr ⟨rfl, inTemplate⟩

end Reads

end Wording

/-! Templates that are filled. -/

section Fill

variable {args : List String} {template : String} {wording : Wording}

theorem fillTemplateFrom_letters {text : List Char}
    (reads : wording.Reads args.length text)
    (separate : wording.apart args.length false = true)
    (plain : ∀ arg ∈ args.dropLast, '\x7b' ∉ arg.toList)
    {done rest : List String} (split : args = done ++ rest) :
    fillTemplateFrom done.length (.ofList (wording.letters args done.length)) rest =
      .ofList (wording.letters args args.length) := by
  induction rest generalizing done with
  | nil => rw [split, List.append_nil, fillTemplateFrom]
  | cons arg rest ih =>
      have bound : done.length < args.length := by simp [split]
      have here : args[done.length]?.getD "" = arg := by simp [split]
      have plainBefore : ∀ index < done.length,
          '\x7b' ∉ (args[index]?.getD "").toList := by
        intro index before
        have taken : args[index]?.getD "" = done[index] := by
          rw [split, List.getElem?_append_left before,
            List.getElem?_eq_getElem before, Option.getD_some]
        have member : done[index] ∈ args.dropLast := by
          rw [split, List.dropLast_append_cons]
          exact List.mem_append_left _ (List.getElem_mem before)
        exact taken ▸ plain _ member
      have filled := reads.replaceFrom_letters bound plainBefore separate
      have splitNext : args = (done ++ [arg]) ++ rest := by
        rw [split, List.append_assoc]
        rfl
      have later := ih splitNext
      rw [List.length_append] at later
      rw [fillTemplateFrom, replaceAll, String.toList_ofList, ← here, filled]
      exact later

theorem fillTemplate_of_reads
    (reads : wording.Reads args.length template.toList)
    (separate : wording.apart args.length false = true)
    (plain : ∀ arg ∈ args.dropLast, '\x7b' ∉ arg.toList) :
    fillTemplate template args = wording.fill args := by
  have filled :=
    fillTemplateFrom_letters reads separate plain (List.nil_append args).symm
  rw [List.length_nil, reads.letters_zero, reads.letters_count,
    String.ofList_toList, String.ofList_toList] at filled
  exact filled

/-- Filling one argument after the other is filling all the places of the
template together, if no argument but the last brings a brace in and no place
stands behind the beginning of another. -/
theorem fillTemplate_eq_fill (template : String) (args : List String)
    (separate : (Wording.read args.length template).apart args.length false = true)
    (plain : ∀ arg ∈ args.dropLast, '\x7b' ∉ arg.toList) :
    fillTemplate template args =
      (Wording.read args.length template).fill args :=
  fillTemplate_of_reads (Wording.reads_read _ _) separate plain

/-- A message about names without braces. -/
theorem fillTemplate_eq_fill_cycle :
    let template := Code.cycle.wording.template
    let args := ["A", "B"]
    (Wording.read 2 template).apart 2 false = true ∧
      (∀ arg ∈ args.dropLast, '\x7b' ∉ arg.toList) ∧
      fillTemplate template args =
        "A cannot inherit from B: B already derives from A" := by
  intro template args
  have separate : (Wording.read 2 template).apart 2 false = true := by
    decide +kernel
  have plain : ∀ arg ∈ args.dropLast, '\x7b' ∉ arg.toList := by decide
  refine ⟨separate, plain, ?_⟩
  rw [fillTemplate_eq_fill template args separate plain]
  decide

/-- The name that is put in the first place is written like the second place,
and it is replaced in its turn. -/
theorem fillTemplate_expands_argument :
    let template := Code.noSuchAncestor.wording.template
    let args := ["\x7b1\x7d", "List"]
    fillTemplate template args = "List has no ancestor named List" ∧
      (Wording.read args.length template).fill args =
        "\x7b1\x7d has no ancestor named List" := by
  decide +kernel

/-- Braces in the template around a place make another place of
what is put in. -/
example :
    fillTemplate "\x7b\x7b0\x7d\x7d" ["1", "List"] = "List" ∧
      (Wording.read 2 "\x7b\x7b0\x7d\x7d").fill ["1", "List"] =
        "\x7b1\x7d" := by
  decide

end Fill

/-! The messages of the registered codes. -/

/-- A piece that has no brace of its own. -/
def Piece.isPlain : Piece → Bool
  | .words text => !text.toList.contains '\x7b'
  | .arg _ => true

namespace Wording

variable {count : Nat} {chars rest : List Char} {wording : Wording}

/-- Fixed text, with a piece for each character. -/
def spelled (chars : List Char) : Wording :=
  chars.map fun c => .words (String.singleton c)

theorem Reads.append_spelled (reads : Reads count rest wording)
    (plain : '\x7b' ∉ chars) :
    Reads count (chars ++ rest) (spelled chars ++ wording) := by
  induction chars with
  | nil => exact reads
  | cons c chars ih =>
      obtain ⟨differs, plain⟩ := List.ne_and_not_mem_of_not_mem_cons plain
      refine .letter (fun index _ occurs => differs ?_) (ih plain)
      rw [toList_placeholder] at occurs
      exact (List.cons_prefix_cons.mp occurs).1

theorem apart_spelled (plain : '\x7b' ∉ chars) :
    apart count false (spelled chars ++ wording) =
      apart count false wording := by
  induction chars with
  | nil => rfl
  | cons c chars ih =>
      obtain ⟨differs, plain⟩ := List.ne_and_not_mem_of_not_mem_cons plain
      have closed : (c == '\x7b' || false && c.isDigit) = false := by
        simpa using Ne.symm differs
      rw [← ih plain, spelled, List.map_cons, List.cons_append,
        apart_letter, closed]
      rfl

theorem fill_spelled (args : List String) :
    fill (spelled chars ++ wording) args =
      .ofList chars ++ fill wording args := by
  induction chars with
  | nil => exact (String.empty_append).symm
  | cons c chars ih =>
      rw [spelled, List.map_cons, List.cons_append, fill_cons, ← spelled, ih,
        ← String.append_assoc, Piece.fill, String.singleton_eq_ofList,
        ← String.ofList_append, List.singleton_append]

/-- A wording without braces in its fixed texts reads back from its template. -/
theorem exists_reads_template (plain : ∀ piece ∈ wording, piece.isPlain = true)
    (bound : ∀ index, .arg index ∈ wording → index < count) :
    ∃ read : Wording, read.Reads count wording.template.toList ∧
      read.apart count false = true ∧
        ∀ args, read.fill args = wording.fill args := by
  induction wording with
  | nil => exact ⟨[], .nil, rfl, fun _ => rfl⟩
  | cons piece wording ih =>
      obtain ⟨read, reads, separate, same⟩ := ih
        (fun piece member => plain piece (List.mem_cons_of_mem _ member))
        (fun index member => bound index (List.mem_cons_of_mem _ member))
      rw [template_cons, String.toList_append]
      cases piece with
      | words text =>
          have absent : '\x7b' ∉ text.toList := by
            simpa [Piece.isPlain] using plain (.words text) List.mem_cons_self
          refine ⟨spelled text.toList ++ read, reads.append_spelled absent, ?_,
            fun args => ?_⟩
          · rw [apart_spelled absent, separate]
          · rw [fill_spelled, same, fill_cons, String.ofList_toList, Piece.fill]
      | arg index =>
          refine ⟨.arg index :: read,
            .place (bound index List.mem_cons_self) reads, ?_, fun args => ?_⟩
          · rw [apart, separate]
            rfl
          · rw [fill_cons, fill_cons, same]

end Wording

/-- The template of a registered code, filled with arguments without braces, is
the message of the code.  The last argument may have braces. -/
theorem Code.fillTemplate_wording (code : Code) {args : List String}
    (enough : ∀ index, .arg index ∈ code.wording → index < args.length)
    (plain : ∀ arg ∈ args.dropLast, '\x7b' ∉ arg.toList) :
    fillTemplate code.wording.template args = code.wording.fill args := by
  have plainPieces : ∀ piece ∈ code.wording, piece.isPlain = true := by
    cases code <;> decide +kernel
  obtain ⟨read, reads, separate, same⟩ :=
    Wording.exists_reads_template plainPieces enough
  rw [← same]
  exact fillTemplate_of_reads reads separate plain

end NominalTypes
