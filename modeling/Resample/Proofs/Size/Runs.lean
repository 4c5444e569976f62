import Mathlib.Data.String.Basic
import Resample.Size.Cursor
import Resample.Proofs.Size.Tokens
import Resample.Proofs.Steps

/-!
# Texts that have no tokens

A text has no tokens if it is blank, if it has a character that begins no token, or if some run of digits and dots in
it is not a number. A run is all digits and dots that follow each other, but for the digits of a name: these belong
to the name. The cursor over the bytes of a text finds the same tokens, and never cuts a character.

## Contents

- §1 runs of digits and dots, §2 refused texts, §3 the cursor, §4 the tokens of a text
-/

namespace Resample.Size.Token

open Text (isBlank)

variable {c : Char} {token : Token} {spelling run rest text : List Char}

/-! ## §1 Runs of digits and dots -/

/-- What a text ends in: digits and dots of a number, characters of a name, or something else. -/
inductive Ending where
  | number
  | name
  | other
deriving DecidableEq

/-- A letter or an underscore begins a name or goes on with it, a digit goes on with a name. -/
def Ending.next (e : Ending) (c : Char) : Ending :=
  if isNameStart c ∨ e = .name ∧ c.isDigit then .name
  else if isNumeral c then .number
  else .other

/-- A run of digits and dots, behind a text of some ending and before another text. -/
structure IsRun (before : Ending) (run after : List Char) : Prop where
  nonempty : run ≠ []
  /-- No number goes on to the left of the run. -/
  starts : before ≠ .number
  /-- The run begins a number, so it is not among the digits of a name. -/
  first : ∀ c ∈ run.head?, before.next c = .number
  numerals : ∀ c ∈ run, isNumeral c
  /-- No number goes on to the right of the run. -/
  stops : Stops isNumeral after

/-- Whether there is a certain run in a text that stands behind one of the given ending. -/
def HasRunAfter (e : Ending) (text run : List Char) : Prop :=
  ∃ before after, text = before ++ run ++ after ∧ IsRun (before.foldl Ending.next e) run after

/-- Whether some run in a text is not a number. -/
def HasBadRun (text : List Char) : Prop :=
  ∃ run, HasRunAfter .other text run ∧ Decimal.binary? (F := .double) run = none

variable {e e' : Ending}

theorem Ending.isNumeral_of_next (h : e.next c = .number) : isNumeral c := by
  unfold next at h
  split at h
  · cases h
  · split at h
    · assumption
    · cases h

/-- A run begins with the text, or behind the first character. -/
theorem hasRunAfter_cons_iff : HasRunAfter e (c :: rest) run ↔
    (∃ after, c :: rest = run ++ after ∧ IsRun e run after) ∨ HasRunAfter (e.next c) rest run := by
  constructor
  · rintro ⟨before, after, htext, hrun⟩
    cases before with
    | nil => exact .inl ⟨after, htext, hrun⟩
    | cons d before =>
      obtain ⟨rfl, rfl⟩ := List.cons.inj htext
      exact .inr ⟨before, after, rfl, hrun⟩
  · rintro (⟨after, htext, hrun⟩ | ⟨before, after, rfl, hrun⟩)
    · exact ⟨[], after, htext, hrun⟩
    · exact ⟨c :: before, after, rfl, hrun⟩

theorem not_hasRunAfter_nil : ¬ HasRunAfter e [] run := by
  rintro ⟨before, after, htext, hrun⟩
  obtain ⟨hbefore, -⟩ := List.append_eq_nil_iff.1 htext.symm
  exact hrun.nonempty (List.append_eq_nil_iff.1 hbefore).2

section
variable {after : List Char}

theorem IsRun.head?_eq (h : IsRun e run after) (htext : c :: rest = run ++ after) : run.head? = some c := by
  obtain ⟨d, parts, rfl⟩ := List.exists_cons_of_ne_nil h.nonempty
  exact congrArg some (List.cons.inj htext).1.symm

/-- The first character of a run takes the ending of a text to that of a number. -/
theorem IsRun.next_eq (h : IsRun e run after) (htext : c :: rest = run ++ after) : e.next c = .number :=
  h.first c (h.head?_eq htext)

/-- What stands before a run matters for its first character only. -/
theorem IsRun.congr (h : IsRun e run after) (htext : c :: rest = run ++ after) (hnext : e'.next c = e.next c)
    (hstarts : e' ≠ .number) : IsRun e' run after where
  nonempty := h.nonempty
  starts := hstarts
  first := by
    intro d hd
    rw [h.head?_eq htext] at hd
    obtain rfl := Option.some.inj hd
    rw [hnext, h.next_eq htext]
  numerals := h.numerals
  stops := h.stops

end

/-- No run begins where the ending of a text stays as it is. -/
theorem hasRunAfter_append {parts : List Char} (h : ∀ c ∈ parts, e.next c = e) :
    HasRunAfter e (parts ++ rest) run ↔ HasRunAfter e rest run := by
  induction parts with
  | nil => exact Iff.rfl
  | cons c parts ih =>
    obtain ⟨hc, hparts⟩ := List.forall_mem_cons.1 h
    rw [List.cons_append, hasRunAfter_cons_iff, hc, ih hparts, or_iff_right]
    rintro ⟨after, htext, hrun⟩
    exact hrun.starts (hc.symm.trans (hrun.next_eq htext))

/-- What a text ends with does not matter for the runs behind it if the next character does not go on with
it. -/
theorem hasRunAfter_iff_other
    (h : ∀ c ∈ rest.head?, e.next c = Ending.other.next c ∧ (e.next c = .number → e ≠ .number)) :
    HasRunAfter e rest run ↔ HasRunAfter .other rest run := by
  cases rest with
  | nil => exact iff_of_false not_hasRunAfter_nil not_hasRunAfter_nil
  | cons c rest =>
    obtain ⟨hnext, hstarts⟩ := h c rfl
    rw [hasRunAfter_cons_iff, hasRunAfter_cons_iff, hnext]
    refine or_congr_left (exists_congr fun after => and_congr_right fun htext => ⟨fun hrun => ?_, fun hrun => ?_⟩)
    · exact hrun.congr htext hnext.symm (by decide)
    · exact hrun.congr htext hnext (hstarts (hnext.trans (hrun.next_eq htext)))

/-- A digit or a dot outside of names is one of a number. -/
theorem Ending.next_of_isNumeral (he : e ≠ .name) (h : isNumeral c) : e.next c = .number := by
  have hstart := not_isNameStart_of_isNumeral h
  rw [next, if_neg, if_pos h]
  rintro (hc | ⟨hname, -⟩)
  · exact hstart hc
  · exact he hname

/-- A name goes on with its characters. -/
theorem Ending.name_next (h : isNamePart c) : name.next c = .name :=
  if_pos ((isNamePart_iff.1 h).imp_right fun hdigit => ⟨rfl, hdigit⟩)

/-- Only digits are taken otherwise behind a name. -/
theorem Ending.next_eq_other (h : e = .name → ¬ c.isDigit) : e.next c = other.next c := by
  have hdigit : ¬ (e = .name ∧ c.isDigit) := fun ⟨he, hc⟩ => h he hc
  have hother : ¬ (other = .name ∧ c.isDigit) := fun ⟨he, _⟩ => by cases he
  simp only [next, hdigit, hother]

/-- A number at the front of a text is a run, and the other runs are those of the rest. -/
theorem hasRunAfter_numerals {front : List Char} (hne : front ≠ []) (hfront : ∀ c ∈ front, isNumeral c)
    (hstops : Stops isNumeral rest) :
    HasRunAfter .other (front ++ rest) run ↔ run = front ∨ HasRunAfter .other rest run := by
  obtain ⟨c, parts, rfl⟩ := List.exists_cons_of_ne_nil hne
  obtain ⟨hc, hparts⟩ := List.forall_mem_cons.1 hfront
  have hnext : Ending.other.next c = .number := Ending.next_of_isNumeral (by decide) hc
  -- what follows the number is neither digit nor dot, so it is read as behind anything else
  have hrest : HasRunAfter .number rest run ↔ HasRunAfter .other rest run := by
    refine hasRunAfter_iff_other fun d hd => ⟨Ending.next_eq_other (fun he => by cases he), fun hnumber => ?_⟩
    exact absurd (Ending.isNumeral_of_next hnumber) (hstops d hd)
  rw [List.cons_append, hasRunAfter_cons_iff, hnext,
    hasRunAfter_append fun d hd => Ending.next_of_isNumeral (by decide) (hparts d hd), hrest]
  refine or_congr_left ⟨?_, ?_⟩
  · rintro ⟨after, htext, hrun⟩
    have htake := congrArg (List.takeWhile isNumeral) htext
    rwa [← List.cons_append, takeWhile_append hfront hstops, takeWhile_append hrun.numerals hrun.stops, eq_comm]
      at htake
  · rintro rfl
    refine ⟨rest, rfl, hne, by decide, fun d hd => ?_, hfront, hstops⟩
    obtain rfl := Option.some.inj hd
    exact hnext

/-- No run is in a name at the front of a text. -/
theorem hasRunAfter_name {parts : List Char} (hc : isNameStart c) (hparts : ∀ d ∈ parts, isNamePart d)
    (hstops : Stops isNamePart rest) :
    HasRunAfter .other (c :: parts ++ rest) run ↔ HasRunAfter .other rest run := by
  have hnext : Ending.other.next c = .name := if_pos (.inl hc)
  -- a dot behind a name begins a run, but a digit would belong to the name
  have hrest : HasRunAfter .name rest run ↔ HasRunAfter .other rest run := by
    refine hasRunAfter_iff_other fun d hd => ⟨Ending.next_eq_other fun _ => ?_, fun _ => by decide⟩
    exact fun hdigit => hstops d hd (isNamePart_iff.2 (.inr hdigit))
  rw [List.cons_append, hasRunAfter_cons_iff, hnext, hasRunAfter_append fun d hd => Ending.name_next (hparts d hd),
    hrest, or_iff_right]
  rintro ⟨after, htext, hrun⟩
  cases hnext.symm.trans (hrun.next_eq htext)

/-- A character that neither begins a name nor is in a number does not matter for the runs behind it. -/
theorem hasBadRun_cons (hnumeral : ¬ isNumeral c) (hstart : ¬ isNameStart c) :
    HasBadRun (c :: rest) ↔ HasBadRun rest := by
  have hnext : Ending.other.next c = .other := by
    rw [Ending.next, if_neg, if_neg hnumeral]
    rintro (hc | ⟨he, -⟩)
    · exact hstart hc
    · cases he
  have hsame : ∀ d ∈ [c], Ending.other.next d = .other := List.forall_mem_singleton.2 hnext
  exact exists_congr fun run => and_congr_left fun _ => hasRunAfter_append hsame

/-- The spelling of a token has no run that is not a number. -/
theorem hasBadRun_spelled (h : Spelled token spelling) (hstops : Stops token.goesOn rest) :
    HasBadRun (spelling ++ rest) ↔ HasBadRun rest := by
  cases h with
  | @number _ value hrun hvalue =>
    refine exists_congr fun run => and_congr_left fun hbad => ?_
    rw [hasRunAfter_numerals (ne_nil_of_binary? hvalue) hrun hstops, or_iff_right]
    rintro rfl
    rw [hbad] at hvalue
    cases hvalue
  | name hstart hparts => exact exists_congr fun run => and_congr_left fun _ => hasRunAfter_name hstart hparts hstops
  | symbol hsymbol =>
    obtain ⟨-, hnumeral, hstart, -⟩ := classes_of_ofSymbol? hsymbol
    exact hasBadRun_cons hnumeral hstart

/-! ## §2 Refused texts -/

/-- No character of a spelling is foreign. -/
theorem not_isForeign_of_spelled (h : Spelled token spelling) (hc : c ∈ spelling) : ¬ IsForeign c := by
  rintro ⟨-, hnumeral, hstart, hforeign⟩
  cases h with
  | number hrun => exact hnumeral (hrun c hc)
  | name hfirst hparts =>
    have hpart : isNamePart c := by
      rcases List.mem_cons.1 hc with rfl | hmem
      · exact isNamePart_of_isNameStart hfirst
      · exact hparts c hmem
    rcases isNamePart_iff.1 hpart with h | hdigit
    · exact hstart h
    · exact hnumeral (isNumeral_iff.2 (.inl hdigit))
  | symbol hsymbol =>
    rw [List.mem_singleton.1 hc, hsymbol] at hforeign
    cases hforeign

/-- A text is refused for a foreign character in it or for a run that is not a number, and for nothing else. -/
theorem exists_scan_eq_error_iff :
    (∃ reason, scan text = .error reason) ↔ (∃ c ∈ text, IsForeign c) ∨ HasBadRun text := by
  -- blanks and spelled tokens add neither kind of fault, and the two other cases are one each
  induction text using text_induction with
  | nil =>
    rw [scan]
    refine iff_of_false (by rintro ⟨_, ⟨⟩⟩) ?_
    rintro (⟨c, hc, -⟩ | ⟨run, hrun, -⟩)
    · cases hc
    · exact not_hasRunAfter_nil hrun
  | blank c rest hc ih =>
    have hnumeral : ¬ isNumeral c := not_goesOn_of_isBlank (.number .nan) hc
    have hpart : ¬ isNamePart c := not_goesOn_of_isBlank (.name "") hc
    have hforeign : ¬ IsForeign c := fun h => h.1 hc
    rw [scan_blank hc, ih, hasBadRun_cons hnumeral fun hstart => hpart (isNamePart_of_isNameStart hstart)]
    simp only [List.mem_cons, exists_eq_or_imp, hforeign, false_or]
  | spelled token spelling rest hspelled hstops ih =>
    have hforeign : ¬ ∃ c ∈ spelling, IsForeign c := by
      rintro ⟨c, hc, h⟩
      exact not_isForeign_of_spelled hspelled hc h
    rw [scan_spelled hspelled hstops, exists_map_eq_error_iff, ih, hasBadRun_spelled hspelled hstops]
    simp only [List.mem_append, or_and_right, exists_or, hforeign, false_or]
  | badRun run rest hne hrun hstops hbad =>
    rw [scan_numerals hne hrun hstops, hbad]
    exact iff_of_true ⟨_, rfl⟩ (.inr ⟨run, (hasRunAfter_numerals hne hrun hstops).2 (.inl rfl), hbad⟩)
  | foreign c rest hc =>
    rw [scan_foreign hc]
    exact iff_of_true ⟨_, rfl⟩ (.inl ⟨c, List.mem_cons_self .., hc⟩)

/-! ## §3 The cursor -/

variable {before : List Char} {found : List Token}

/-- A byte behind some characters of a text is at a boundary. -/
theorem isValid_utf8Len (before rest : List Char) :
    String.Pos.Raw.IsValid (String.ofList (before ++ rest)) ⟨String.utf8Len before⟩ := by
  refine String.Pos.Raw.isValid_iff_exists_append.2 ⟨String.ofList before, String.ofList rest, ?_, ?_⟩
  · exact String.ofList_append
  · exact (String.rawEndPos_ofList before).symm

/-- Between two such bytes stand the characters in between. -/
theorem slice?_eq (before run rest : List Char) :
    Text.slice? (String.ofList (before ++ (run ++ rest))) (String.utf8Len before)
      (String.utf8Len (before ++ run)) = some (String.ofList run) := by
  have hle : String.utf8Len before ≤ String.utf8Len (before ++ run) :=
    String.utf8Len_le_of_prefix (List.prefix_append before run)
  have hlast := isValid_utf8Len (before ++ run) rest
  rw [List.append_assoc] at hlast
  rw [Text.slice?, if_pos ⟨hle, isValid_utf8Len before (run ++ rest), hlast⟩, ← List.append_assoc,
    String.utf8Len_append, String.extract_of_valid]

/-- The cursor passes all characters of one kind. -/
theorem advance_positions (p : Char → Bool) (first : Nat) (text : List Char) :
    advance p first (Text.positions first text) =
      (first + String.utf8Len (text.takeWhile p),
        Text.positions (first + String.utf8Len (text.takeWhile p)) (text.dropWhile p)) := by
  induction text generalizing first with
  | nil => rfl
  | cons c rest ih =>
    rw [Text.positions, advance]
    by_cases hp : p c
    · rw [if_pos hp, ih, List.takeWhile_cons_of_pos hp, List.dropWhile_cons_of_pos hp, String.utf8Len_cons,
        Nat.add_assoc, Nat.add_comm c.utf8Size]
    · rw [if_neg hp, List.takeWhile_cons_of_neg hp, List.dropWhile_cons_of_neg hp]
      rfl

/-- The cursor stops behind a run of characters of one class. -/
theorem advance_run {p : Char → Bool} {parts : List Char} (hrun : ∀ d ∈ c :: parts, p d) (hstops : Stops p rest)
    (before : List Char) :
    advance p (String.utf8Len before)
        ((String.utf8Len before, c) :: Text.positions (String.utf8Len before + c.utf8Size) (parts ++ rest)) =
      (String.utf8Len (before ++ c :: parts), Text.positions (String.utf8Len (before ++ c :: parts)) rest) := by
  have hstop := advance_positions p (String.utf8Len before) (c :: parts ++ rest)
  rw [takeWhile_append hrun hstops, dropWhile_append hrun hstops, ← String.utf8Len_append] at hstop
  exact hstop

/-- The cursor reads all digits and dots that follow each other. -/
theorem readFrom_numerals (hne : run ≠ []) (hrun : ∀ c ∈ run, isNumeral c) (hstops : Stops isNumeral rest)
    (found : List Token) :
    readFrom (String.ofList (before ++ (run ++ rest))) (Text.positions (String.utf8Len before) (run ++ rest)) found =
      match Decimal.binary? run with
      | none => some (.error (.badNumber (String.ofList run)))
      | some value => readFrom (String.ofList (before ++ (run ++ rest)))
          (Text.positions (String.utf8Len (before ++ run)) rest) (found ++ [.number value]) := by
  obtain ⟨c, parts, rfl⟩ := List.exists_cons_of_ne_nil hne
  have hc : isNumeral c := hrun c (List.mem_cons_self ..)
  rw [List.cons_append, Text.positions, readFrom, if_neg (not_isBlank_of_isNumeral hc), if_pos hc]
  simp only [advance_run hrun hstops]
  rw [← List.cons_append, slice?_eq]
  cases hvalue : Decimal.binary? (F := .double) (c :: parts) with
  | none | some value => simp only [Option.bind_eq_bind, Option.bind_some, String.toList_ofList, hvalue]

/-- The cursor reads all characters of a name. -/
theorem readFrom_name {parts : List Char} (hc : isNameStart c) (hparts : ∀ d ∈ parts, isNamePart d)
    (hstops : Stops isNamePart rest) (found : List Token) :
    readFrom (String.ofList (before ++ (c :: parts ++ rest)))
        (Text.positions (String.utf8Len before) (c :: parts ++ rest)) found =
      readFrom (String.ofList (before ++ (c :: parts ++ rest)))
        (Text.positions (String.utf8Len (before ++ c :: parts)) rest)
        (found ++ [.name (String.ofList (c :: parts))]) := by
  have hpart := isNamePart_of_isNameStart hc
  have hall : ∀ d ∈ c :: parts, isNamePart d := List.forall_mem_cons.2 ⟨hpart, hparts⟩
  rw [List.cons_append, Text.positions, readFrom, if_neg (not_isBlank_of_isNamePart hpart),
    if_neg fun hnumeral => not_isNameStart_of_isNumeral hnumeral hc, if_pos hc]
  simp only [advance_run hall hstops]
  rw [← List.cons_append, slice?_eq]
  rfl

/-- The cursor reads the spelling of every token. -/
theorem readFrom_spelled (h : Spelled token spelling) (hstops : Stops token.goesOn rest) (found : List Token) :
    readFrom (String.ofList (before ++ (spelling ++ rest)))
        (Text.positions (String.utf8Len before) (spelling ++ rest)) found =
      readFrom (String.ofList (before ++ (spelling ++ rest)))
        (Text.positions (String.utf8Len (before ++ spelling)) rest) (found ++ [token]) := by
  cases h with
  | number hrun hvalue => rw [readFrom_numerals (ne_nil_of_binary? hvalue) hrun hstops, hvalue]
  | name hstart hparts => exact readFrom_name hstart hparts hstops found
  | @symbol c _ hsymbol =>
    obtain ⟨hblank, hnumeral, hstart, -⟩ := classes_of_ofSymbol? hsymbol
    rw [String.utf8Len_append, List.singleton_append, Text.positions, readFrom, if_neg hblank,
      if_neg hnumeral, if_neg hstart, hsymbol]
    simp only [String.utf8Len_cons, String.utf8Len_nil, Nat.zero_add]

/-- What is found are the tokens of the text. -/
theorem readFrom_eq (before rest : List Char) (found : List Token) :
    readFrom (String.ofList (before ++ rest)) (Text.positions (String.utf8Len before) rest) found =
      some ((scan rest).map (found ++ ·)) := by
  -- what is read goes over to the characters before, and the position is their length
  induction rest using text_induction generalizing before found with
  | nil =>
    rw [Text.positions, readFrom, scan]
    simp only [Except.map, List.append_nil]
  | blank c rest hc ih =>
    have h := ih (before ++ [c]) found
    rw [List.append_assoc, List.singleton_append, String.utf8Len_append] at h
    rw [Text.positions, readFrom, if_pos hc, scan_blank hc, ← h]
    simp only [String.utf8Len_cons, String.utf8Len_nil, Nat.zero_add]
  | spelled token spelling rest hspelled hstops ih =>
    have h := ih (before ++ spelling) (found ++ [token])
    rw [List.append_assoc] at h
    rw [readFrom_spelled hspelled hstops, h, scan_spelled hspelled hstops]
    cases scan rest with
    | error reason => rfl
    | ok tokens => simp only [Except.map, List.append_assoc, List.singleton_append]
  | badRun run rest hne hrun hstops hbad =>
    rw [readFrom_numerals hne hrun hstops, scan_numerals hne hrun hstops, hbad]
    rfl
  | foreign c rest hc =>
    rw [Text.positions, readFrom, scan_foreign hc]
    obtain ⟨hblank, hnumeral, hstart, hsymbol⟩ := hc
    rw [if_neg hblank, if_neg hnumeral, if_neg hstart, hsymbol]
    rfl

/-- The cursor never cuts a character, and finds the tokens of the expression or the reason why it has none. -/
theorem guardedTokenize_eq (text : String) : guardedTokenize text = some (tokenize text) := by
  have h := readFrom_eq [] text.toList []
  rw [List.nil_append, String.ofList_toList] at h
  rw [guardedTokenize, tokenize]
  -- the cursor begins at byte zero, behind nothing
  change (readFrom text (Text.positions (String.utf8Len []) text.toList) []).bind _ = _
  rw [h]
  cases scan text.toList with
  | error reason => rfl
  | ok tokens => cases tokens <;> rfl

/-! ## §4 The tokens of a text -/

/-- An expression has the tokens of its text, if there are any. -/
theorem tokenize_eq_ok_iff {expression : String} {tokens : List Token} :
    tokenize expression = .ok tokens ↔ tokens ≠ [] ∧ scan expression.toList = .ok tokens := by
  unfold tokenize
  cases scan expression.toList with
  | error reason => exact iff_of_false (by rintro ⟨⟩) (by rintro ⟨-, ⟨⟩⟩)
  | ok found =>
    cases found with
    | nil => exact iff_of_false (by rintro ⟨⟩) (by rintro ⟨hne, ⟨⟩⟩; exact hne rfl)
    | cons token rest =>
      constructor
      · rintro ⟨⟩
        exact ⟨List.cons_ne_nil _ _, rfl⟩
      · rintro ⟨-, ⟨⟩⟩
        rfl

/-- An expression has no tokens if its text is refused or has none. -/
theorem exists_tokenize_eq_error_iff {expression : String} :
    (∃ reason, tokenize expression = .error reason) ↔
      scan expression.toList = .ok [] ∨ ∃ reason, scan expression.toList = .error reason := by
  unfold tokenize
  cases scan expression.toList with
  | error reason => exact iff_of_true ⟨reason, rfl⟩ (.inr ⟨reason, rfl⟩)
  | ok found =>
    cases found with
    | nil => exact iff_of_true ⟨_, rfl⟩ (.inl rfl)
    | cons token rest => exact iff_of_false (by rintro ⟨_, ⟨⟩⟩) (by rintro (h | ⟨_, ⟨⟩⟩); cases h)

/-- Nothing is found in blanks only. -/
theorem scan_eq_nil_iff : scan text = .ok [] ↔ ∀ c ∈ text, isBlank c := by
  rw [scan_eq_ok_iff]
  constructor
  · rintro ⟨pieces, tail, hspaced, rfl, hnil⟩
    obtain rfl := List.map_eq_nil_iff.1 hnil
    exact hspaced.tail
  · intro h
    exact ⟨[], text, wellSpaced_nil_iff.2 h, rfl, rfl⟩

/-- The tokens of an expression are those that it is written from, whatever blanks stand before, between and behind
their spellings, as long as there is one where two of them would cling together. An expression has none exactly if it
is blank, has a foreign character or has a run of digits and dots that is not a number. Read with a cursor over its
bytes, it has the same tokens, and no character is cut. -/
theorem tokenize_written (expression : String) :
    (∀ tokens, tokenize expression = .ok tokens ↔ tokens ≠ [] ∧ ∃ pieces tail, WellSpaced pieces tail ∧
      expression = String.ofList (written pieces tail) ∧ pieces.map Piece.token = tokens) ∧
    ((∃ reason, tokenize expression = .error reason) ↔ (∀ c ∈ expression.toList, isBlank c) ∨
      (∃ c ∈ expression.toList, IsForeign c) ∨ HasBadRun expression.toList) ∧
    guardedTokenize expression = some (tokenize expression) := by
  refine ⟨fun tokens => ?_, ?_, guardedTokenize_eq expression⟩
  · simp only [tokenize_eq_ok_iff, scan_eq_ok_iff, String.ext_iff, String.toList_ofList]
  · rw [exists_tokenize_eq_error_iff, scan_eq_nil_iff, exists_scan_eq_error_iff]

/-- A name needs no blanks between two numbers of which the other one begins with a point, while the next number does,
here one of three bytes. In `a1.` the digit belongs to the name, so the point is a run of its own. -/
theorem tokenize_written_adjacent :
    ∃ two half seven, Decimal.binary? ['2'] = some two ∧ Decimal.binary? ['.', '5'] = some half ∧
      Decimal.binary? ['7'] = some seven ∧
      tokenize "2iw.5\u30007" = .ok [.number two, .name "iw", .number half, .number seven] ∧
      ∃ reason, tokenize "a1." = .error reason := by
  obtain ⟨two, htwo⟩ : ∃ x, Decimal.binary? (F := .double) ['2'] = some x := ⟨_, rfl⟩
  obtain ⟨half, hhalf⟩ : ∃ x, Decimal.binary? (F := .double) ['.', '5'] = some x := ⟨_, rfl⟩
  obtain ⟨seven, hseven⟩ : ∃ x, Decimal.binary? (F := .double) ['7'] = some x := ⟨_, rfl⟩
  have hspaced : WellSpaced [⟨[], .number two, ['2']⟩, ⟨[], .name "iw", ['i', 'w']⟩,
      ⟨[], .number half, ['.', '5']⟩, ⟨['\u3000'], .number seven, ['7']⟩] [] := {
    spelled := by
      simp only [List.forall_mem_cons]
      exact ⟨.number (List.all_eq_true.1 rfl) htwo, .name rfl (List.all_eq_true.1 rfl),
        .number (List.all_eq_true.1 rfl) hhalf, .number (List.all_eq_true.1 rfl) hseven, List.forall_mem_nil _⟩
    gaps := by
      simp only [List.forall_mem_cons]
      exact ⟨List.forall_mem_nil _, List.forall_mem_nil _, List.forall_mem_nil _,
        ⟨rfl, List.forall_mem_nil _⟩, List.forall_mem_nil _⟩
    tail := List.forall_mem_nil _
    apart := by
      refine .cons_cons (fun h => h.elim) (.cons_cons ?_ (.cons_cons (fun _ => List.cons_ne_nil _ _) (.singleton _)))
      rintro ⟨_, ⟨⟩, hdigit⟩
      cases hdigit }
  have hrun : IsRun (['a', '1'].foldl Ending.next .other) ['.'] [] :=
    ⟨List.cons_ne_nil _ _, by decide, by rintro _ ⟨⟩; rfl, List.all_eq_true.1 rfl, fun _ h => by cases h⟩
  exact ⟨two, half, seven, htwo, hhalf, hseven,
    ((tokenize_written "2iw.5\u30007").1 _).2 ⟨List.cons_ne_nil _ _, _, _, hspaced, rfl, rfl⟩,
    (tokenize_written "a1.").2.1.2 (.inr (.inr ⟨['.'], ⟨['a', '1'], [], rfl, hrun⟩, rfl⟩))⟩

end Resample.Size.Token
