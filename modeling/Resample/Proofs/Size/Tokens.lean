import Mathlib.Data.List.Chain
import Resample.Size.Token

/-!
# Tokens and their spellings

A list of tokens is written out by a spelling for each of them, with blanks before, between and behind them as one
likes, but for some where two spellings would read as one. The tokens of a text are exactly those that it is written
from: they are read again, and whatever tokens a text has, it is them written out.

## Contents

- §1 characters, §2 what a text begins with, §3 writing tokens out
-/

namespace Resample.Size.Token

open Text (isBlank)

variable {c : Char} {token : Token} {spelling run rest text : List Char}

/-! ## §1 Characters -/

/-- A character of none of the classes. -/
def IsForeign (c : Char) : Prop :=
  ¬ isBlank c ∧ ¬ isNumeral c ∧ ¬ isNameStart c ∧ ofSymbol? c = none

/-- No printable character of ASCII is a blank. -/
theorem not_isBlank (hlow : 0x20 < c.toNat) (hhigh : c.toNat < 0x85) : ¬ isBlank c := by
  rw [Bool.not_eq_true, isBlank, List.any_eq_false]
  simp only [Text.blankRanges, List.forall_mem_cons, Bool.and_eq_true, decide_eq_true_eq]
  simp only [List.not_mem_nil, false_implies, implies_true, and_true]
  omega

theorem isDigit_iff : c.isDigit ↔ 0x30 ≤ c.toNat ∧ c.toNat ≤ 0x39 := by
  simp only [Char.isDigit, Bool.and_eq_true, decide_eq_true_eq]
  exact Iff.rfl

theorem isAlpha_iff :
    c.isAlpha ↔ (0x41 ≤ c.toNat ∧ c.toNat ≤ 0x5A) ∨ (0x61 ≤ c.toNat ∧ c.toNat ≤ 0x7A) := by
  delta Char.isAlpha Char.isUpper Char.isLower
  simp only [Bool.or_eq_true, Bool.and_eq_true, decide_eq_true_eq]
  exact Iff.rfl

theorem isNumeral_iff : isNumeral c ↔ c.isDigit ∨ c = '.' := by
  rw [isNumeral, Bool.or_eq_true, decide_eq_true_eq]

theorem isNameStart_iff : isNameStart c ↔ c.isAlpha ∨ c = '_' := by
  rw [isNameStart, Bool.or_eq_true, decide_eq_true_eq]

theorem isNamePart_iff : isNamePart c ↔ isNameStart c ∨ c.isDigit := by
  simp only [isNamePart, isNameStart, Char.isAlphanum, Bool.or_eq_true]
  exact or_right_comm

/-- No name begins with a digit or a dot. -/
theorem not_isNameStart_of_isNumeral (h : isNumeral c) : ¬ isNameStart c := by
  rw [isNameStart_iff, isAlpha_iff]
  rcases isNumeral_iff.1 h with hdigit | rfl
  · rw [isDigit_iff] at hdigit
    rintro (halpha | rfl)
    · omega
    · revert hdigit
      decide
  · decide

/-- A symbol is no blank, and in no number or name. -/
theorem classes_of_ofSymbol? (h : ofSymbol? c = some token) :
    ¬ isBlank c ∧ ¬ isNumeral c ∧ ¬ isNameStart c ∧ ¬ isNamePart c := by
  unfold ofSymbol? at h
  split at h
  all_goals cases h
  all_goals decide

/-- No blank is in a number. -/
theorem not_isBlank_of_isNumeral (h : isNumeral c) : ¬ isBlank c := by
  rcases isNumeral_iff.1 h with hdigit | rfl
  · obtain ⟨hlow, hhigh⟩ := isDigit_iff.1 hdigit
    exact not_isBlank (by omega) (by omega)
  · decide

/-- No blank is in a name. -/
theorem not_isBlank_of_isNamePart (h : isNamePart c) : ¬ isBlank c := by
  rcases isNamePart_iff.1 h with hstart | hdigit
  · rcases isNameStart_iff.1 hstart with halpha | rfl
    · rw [isAlpha_iff] at halpha
      exact not_isBlank (by omega) (by omega)
    · decide
  · exact not_isBlank_of_isNumeral (isNumeral_iff.2 (.inl hdigit))

/-! ## §2 What a text begins with -/

/-- No character of a class comes next. -/
def Stops (p : Char → Bool) (text : List Char) : Prop := ∀ c ∈ text.head?, ¬ p c

theorem takeWhile_append {p : Char → Bool} (hp : ∀ c ∈ run, p c) (h : Stops p rest) :
    (run ++ rest).takeWhile p = run := by
  rw [List.takeWhile_append_of_pos hp]
  cases rest with
  | nil => exact List.append_nil run
  | cons c rest => rw [List.takeWhile_cons_of_neg ((h c rfl)), List.append_nil]

theorem dropWhile_append {p : Char → Bool} (hp : ∀ c ∈ run, p c) (h : Stops p rest) :
    (run ++ rest).dropWhile p = rest := by
  rw [List.dropWhile_append_of_pos hp]
  cases rest with
  | nil => rfl
  | cons c rest => exact List.dropWhile_cons_of_neg ((h c rfl))

theorem stops_dropWhile (p : Char → Bool) (text : List Char) : Stops p (text.dropWhile p) := by
  intro c hc
  have hhead := List.head?_dropWhile_not p text
  rw [Option.mem_def.1 hc] at hhead
  exact ne_true_of_eq_false hhead

/-- The spellings of a token. -/
inductive Spelled : Token → List Char → Prop where
  /-- A number is spelled by digits and dots that it is read from. -/
  | number {run : List Char} {value : Double} (hrun : ∀ c ∈ run, isNumeral c)
      (hvalue : Decimal.binary? run = some value) : Spelled (.number value) run
  /-- A name is spelled by its own characters. -/
  | name {c : Char} {parts : List Char} (hstart : isNameStart c) (hparts : ∀ d ∈ parts, isNamePart d) :
      Spelled (.name (String.ofList (c :: parts))) (c :: parts)
  /-- Any other token is spelled by its symbol. -/
  | symbol {c : Char} {token : Token} (hsymbol : ofSymbol? c = some token) : Spelled token [c]

/-- The characters by which the spelling of a token goes on. -/
def goesOn : Token → Char → Bool
  | number _, c => isNumeral c
  | name _, c => isNamePart c
  | _, _ => false

/-- A symbol is all of its spelling. -/
theorem not_goesOn_of_ofSymbol? (h : ofSymbol? c = some token) (d : Char) : ¬ token.goesOn d := by
  unfold ofSymbol? at h
  split at h
  all_goals cases h
  all_goals exact Bool.false_ne_true

theorem ne_nil_of_binary? {value : Double} (h : Decimal.binary? run = some value) : run ≠ [] := by
  rintro rfl
  cases h

/-- Blanks before a text are passed over. -/
theorem scan_blank (h : isBlank c) : scan (c :: rest) = scan rest := by
  rw [scan, if_pos h]

/-- A run of digits and dots is one number, or none. -/
theorem scan_numerals (hne : run ≠ []) (hrun : ∀ c ∈ run, isNumeral c) (hstops : Stops isNumeral rest) :
    scan (run ++ rest) = match Decimal.binary? run with
      | none => .error (.badNumber (String.ofList run))
      | some value => (scan rest).map (.number value :: ·) := by
  obtain ⟨c, parts, rfl⟩ := List.exists_cons_of_ne_nil hne
  have hc : isNumeral c := hrun c (List.mem_cons_self ..)
  have hparts : ∀ d ∈ parts, isNumeral d := fun d hd => hrun d (List.mem_cons_of_mem _ hd)
  rw [List.cons_append, scan, if_neg (not_isBlank_of_isNumeral hc), if_pos hc]
  simp only [takeWhile_append hparts hstops, dropWhile_append hparts hstops]
  cases Decimal.binary? (c :: parts) with
  | none => rfl
  | some value => cases scan rest <;> rfl

/-- The spelling of a token is read as the token, if it does not go on. -/
theorem scan_spelled (h : Spelled token spelling) (hstops : Stops token.goesOn rest) :
    scan (spelling ++ rest) = (scan rest).map (token :: ·) := by
  cases h with
  | number hrun hvalue => rw [scan_numerals (ne_nil_of_binary? hvalue) hrun hstops, hvalue]
  | @name c parts hstart hparts =>
    have hblank := not_isBlank_of_isNamePart (isNamePart_of_isNameStart hstart)
    have hnumeral : ¬ isNumeral c := fun hnumeral =>
      (not_isNameStart_of_isNumeral hnumeral) hstart
    rw [List.cons_append, scan, if_neg hblank, if_neg hnumeral, if_pos hstart,
      takeWhile_append hparts hstops, dropWhile_append hparts hstops]
    cases scan rest <;> rfl
  | @symbol c token hsymbol =>
    obtain ⟨hblank, hnumeral, hstart, -⟩ := classes_of_ofSymbol? hsymbol
    rw [List.singleton_append, scan, if_neg hblank, if_neg hnumeral,
      if_neg hstart, hsymbol]
    cases scan rest <;> rfl

/-- Any other character is refused. -/
theorem scan_foreign (h : IsForeign c) : scan (c :: rest) = .error (.unexpectedCharacter c) := by
  obtain ⟨hblank, hnumeral, hstart, hsymbol⟩ := h
  rw [scan, if_neg hblank, if_neg hnumeral,
    if_neg hstart, hsymbol]

/-- A text begins with a blank, with the spelling of a token that does not go on, with a run of digits and dots that
is not a number, or with a foreign character, if it is not empty. -/
@[elab_as_elim]
theorem text_induction {motive : List Char → Prop} (nil : motive [])
    (blank : ∀ c rest, isBlank c → motive rest → motive (c :: rest))
    (spelled : ∀ token spelling rest, Spelled token spelling → Stops token.goesOn rest → motive rest →
      motive (spelling ++ rest))
    (badRun : ∀ run rest, run ≠ [] → (∀ c ∈ run, isNumeral c) → Stops isNumeral rest →
      Decimal.binary? (F := .double) run = none → motive (run ++ rest))
    (foreign : ∀ c rest, IsForeign c → motive (c :: rest)) (text : List Char) : motive text := by
  induction hn : text.length using Nat.strong_induction_on generalizing text with
  | _ n ih =>
    subst hn
    match text with
    | [] => exact nil
    | c :: rest =>
      -- the first character decides what the text begins with, and numbers and names take all that belongs to them
      have hrest : ∀ p, motive (rest.dropWhile p) := fun p =>
        ih _ (Nat.lt_succ_of_le (List.dropWhile_sublist p).length_le) _ rfl
      by_cases hblank : isBlank c
      · exact blank c rest hblank (ih _ (Nat.lt_succ_self _) _ rfl)
      by_cases hnumeral : isNumeral c
      · have hrun : ∀ d ∈ c :: rest.takeWhile isNumeral, isNumeral d :=
          List.forall_mem_cons.2 ⟨hnumeral, List.all_eq_true.1 List.all_takeWhile⟩
        rw [← List.takeWhile_append_dropWhile (p := isNumeral) (l := rest), ← List.cons_append]
        cases hvalue : Decimal.binary? (F := .double) (c :: rest.takeWhile isNumeral) with
        | none => exact badRun _ _ (List.cons_ne_nil _ _) hrun (stops_dropWhile _ _) hvalue
        | some value => exact spelled _ _ _ (.number hrun hvalue) (stops_dropWhile _ _) (hrest _)
      by_cases hstart : isNameStart c
      · rw [← List.takeWhile_append_dropWhile (p := isNamePart) (l := rest), ← List.cons_append]
        exact spelled _ _ _ (.name hstart (List.all_eq_true.1 List.all_takeWhile)) (stops_dropWhile _ _) (hrest _)
      cases hsymbol : ofSymbol? c with
      | none =>
        exact foreign c rest ⟨hblank, hnumeral, hstart, hsymbol⟩
      | some token =>
        exact spelled _ [c] rest (.symbol hsymbol) (fun d _ => not_goesOn_of_ofSymbol? hsymbol d)
          (ih _ (Nat.lt_succ_self _) _ rfl)

/-! ## §3 Writing tokens out -/

/-- A token as it is written: blanks, and a spelling behind them. -/
structure Piece where
  gap : List Char
  token : Token
  spelling : List Char

/-- Whether two spellings side by side would be read otherwise: those of two numbers, of two names, and of a name and
a number that begins with a digit. -/
def Piece.Clings (p q : Piece) : Prop :=
  match p.token, q.token with
  | .number _, .number _ => True
  | .name _, .name _ => True
  | .name _, .number _ => ∃ c ∈ q.spelling.head?, c.isDigit
  | _, _ => False

/-- The text of some pieces, with something behind the last one. -/
def written (pieces : List Piece) (tail : List Char) : List Char :=
  pieces.flatMap (fun p => p.gap ++ p.spelling) ++ tail

/-- Tokens written out with blanks between them wherever two spellings cling together. -/
structure WellSpaced (pieces : List Piece) (tail : List Char) : Prop where
  spelled : ∀ p ∈ pieces, Spelled p.token p.spelling
  gaps : ∀ p ∈ pieces, ∀ c ∈ p.gap, isBlank c
  tail : ∀ c ∈ tail, isBlank c
  apart : pieces.IsChain fun p q => p.Clings q → q.gap ≠ []

variable {p q : Piece} {pieces : List Piece} {tail : List Char}

theorem written_cons (p : Piece) (pieces : List Piece) (tail : List Char) :
    written (p :: pieces) tail = p.gap ++ (p.spelling ++ written pieces tail) := by
  simp only [written, List.flatMap_cons, List.append_assoc]

theorem Spelled.exists_cons (h : Spelled token spelling) : ∃ c rest, spelling = c :: rest := by
  cases h with
  | number _ hvalue => exact List.exists_cons_of_ne_nil (ne_nil_of_binary? hvalue)
  | name => exact ⟨_, _, rfl⟩
  | symbol => exact ⟨_, _, rfl⟩

/-- No spelling goes on with a blank. -/
theorem not_goesOn_of_isBlank (token : Token) (h : isBlank c) : ¬ token.goesOn c := by
  intro hgoes
  cases token with
  | number value => exact (not_isBlank_of_isNumeral hgoes) h
  | name text => exact (not_isBlank_of_isNamePart hgoes) h
  | operator | opening | closing => cases hgoes

/-- Spellings cling together if the first one would go on. -/
theorem Piece.clings_iff (hq : Spelled q.token q.spelling) :
    p.Clings q ↔ ∃ c ∈ q.spelling.head?, p.token.goesOn c := by
  obtain ⟨gap, token, spelling⟩ := p
  obtain ⟨gap', token', spelling'⟩ := q
  dsimp only at hq ⊢
  cases hq with
  | @number run value hrun hvalue =>
    obtain ⟨c, rest, rfl⟩ := List.exists_cons_of_ne_nil (ne_nil_of_binary? hvalue)
    have hc : isNumeral c := hrun c (List.mem_cons_self ..)
    cases token with
    | number => exact iff_of_true trivial ⟨c, rfl, hc⟩
    | name =>
      -- a point is no character of a name
      have hpart : isNamePart c ↔ c.isDigit := by
        rw [isNamePart_iff]
        exact or_iff_right (not_isNameStart_of_isNumeral hc)
      simp only [Clings, goesOn, List.head?_cons, Option.mem_some_iff, exists_eq_left', hpart]
    | operator | opening | closing => exact iff_of_false id (by rintro ⟨_, -, ⟨⟩⟩)
  | @name c parts hstart hparts =>
    cases token with
    | number =>
      refine iff_of_false id ?_
      rintro ⟨_, ⟨⟩, hnumeral⟩
      exact (not_isNameStart_of_isNumeral hnumeral) hstart
    | name => exact iff_of_true trivial ⟨c, rfl, isNamePart_of_isNameStart hstart⟩
    | operator | opening | closing => exact iff_of_false id (by rintro ⟨_, -, ⟨⟩⟩)
  | @symbol c _ hsymbol =>
    obtain ⟨-, hnumeral, -, hpart⟩ := classes_of_ofSymbol? hsymbol
    have hgoes := not_goesOn_of_ofSymbol? hsymbol
    refine iff_of_false ?_ ?_
    · cases token' with
      | number | name => exact absurd rfl ((hgoes '0'))
      | operator | opening | closing => cases token <;> exact id
    · rintro ⟨_, ⟨⟩, h⟩
      cases token with
      | number => exact hnumeral h
      | name => exact hpart h
      | operator | opening | closing => cases h

/-- A spelling does not go on with the pieces that follow exactly if there is a blank where the next one clings to
it. -/
theorem stops_written_iff (token : Token) (gap spelling : List Char) (h : WellSpaced pieces tail) :
    Stops token.goesOn (written pieces tail) ↔
      ∀ q ∈ pieces.head?, Piece.Clings ⟨gap, token, spelling⟩ q → q.gap ≠ [] := by
  cases pieces with
  | nil =>
    refine iff_of_true (fun c hc => ?_) (fun _ hq => by cases hq)
    exact not_goesOn_of_isBlank token (h.tail c (List.mem_of_mem_head? hc))
  | cons q pieces =>
    have hq := h.spelled q (List.mem_cons_self ..)
    have hgap := h.gaps q (List.mem_cons_self ..)
    rw [written_cons, List.head?_cons]
    simp only [Option.mem_some_iff, forall_eq', Piece.clings_iff hq]
    cases hgapped : q.gap with
    | nil =>
      -- the next spelling stands right behind this one
      obtain ⟨c, rest, hspelling⟩ := hq.exists_cons
      rw [hspelling]
      constructor
      · rintro hstops ⟨_, ⟨⟩, hgoes⟩
        exact absurd hgoes ((hstops c rfl))
      · rintro hclings _ ⟨⟩
        exact fun hgoes => hclings ⟨c, rfl, hgoes⟩ rfl
    | cons d gap =>
      refine iff_of_true (fun c hc => ?_) (fun _ => List.cons_ne_nil _ _)
      obtain rfl := Option.some.inj hc
      exact not_goesOn_of_isBlank token (hgap _ (hgapped ▸ List.mem_cons_self ..))

/-- A piece is put in front where its spelling does not go on. -/
theorem wellSpaced_cons_iff : WellSpaced (p :: pieces) tail ↔
    Spelled p.token p.spelling ∧ (∀ c ∈ p.gap, isBlank c) ∧ Stops p.token.goesOn (written pieces tail) ∧
      WellSpaced pieces tail := by
  constructor
  · intro h
    obtain ⟨hspelled, hspelledAll⟩ := List.forall_mem_cons.1 h.spelled
    obtain ⟨hgap, hgaps⟩ := List.forall_mem_cons.1 h.gaps
    obtain ⟨hnext, hapart⟩ := List.isChain_cons.1 h.apart
    have hpieces : WellSpaced pieces tail := ⟨hspelledAll, hgaps, h.tail, hapart⟩
    exact ⟨hspelled, hgap, (stops_written_iff p.token p.gap p.spelling hpieces).2 hnext, hpieces⟩
  · rintro ⟨hspelled, hgap, hstops, h⟩
    exact {
      spelled := List.forall_mem_cons.2 ⟨hspelled, h.spelled⟩
      gaps := List.forall_mem_cons.2 ⟨hgap, h.gaps⟩
      tail := h.tail
      apart := List.isChain_cons.2 ⟨(stops_written_iff p.token p.gap p.spelling h).1 hstops, h.apart⟩ }

theorem wellSpaced_nil_iff : WellSpaced [] tail ↔ ∀ c ∈ tail, isBlank c :=
  ⟨fun h => h.tail, fun h => ⟨List.forall_mem_nil _, List.forall_mem_nil _, h, .nil⟩⟩

/-- Blanks before a text that is written out may be put there as well. -/
theorem exists_written_blank (hc : isBlank c) (h : WellSpaced pieces tail) :
    ∃ pieces' tail', WellSpaced pieces' tail' ∧ c :: written pieces tail = written pieces' tail' ∧
      pieces.map Piece.token = pieces'.map Piece.token := by
  -- it goes before the first piece, and behind all of them if there is none
  cases pieces with
  | nil => exact ⟨[], c :: tail, wellSpaced_nil_iff.2 (List.forall_mem_cons.2 ⟨hc, h.tail⟩), rfl, rfl⟩
  | cons p pieces =>
    obtain ⟨hspelled, hgap, hstops, hpieces⟩ := wellSpaced_cons_iff.1 h
    refine ⟨⟨c :: p.gap, p.token, p.spelling⟩ :: pieces, tail, wellSpaced_cons_iff.2 ?_, ?_, rfl⟩
    · exact ⟨hspelled, List.forall_mem_cons.2 ⟨hc, hgap⟩, hstops, hpieces⟩
    · rw [written_cons, written_cons]
      rfl

theorem scan_blanks {blanks : List Char} (h : ∀ c ∈ blanks, isBlank c) : scan (blanks ++ rest) = scan rest := by
  induction blanks with
  | nil => rfl
  | cons c blanks ih =>
    obtain ⟨hc, hblanks⟩ := List.forall_mem_cons.1 h
    rw [List.cons_append, scan_blank hc, ih hblanks]

/-- Tokens that were written out are read again. -/
theorem scan_written (h : WellSpaced pieces tail) :
    scan (written pieces tail) = .ok (pieces.map Piece.token) := by
  induction pieces with
  | nil =>
    rw [show written [] tail = tail ++ [] from (List.append_nil tail).symm, scan_blanks h.tail, scan]
    rfl
  | cons p pieces ih =>
    obtain ⟨hspelled, hgap, hstops, hpieces⟩ := wellSpaced_cons_iff.1 h
    rw [written_cons, scan_blanks hgap, scan_spelled hspelled hstops, ih hpieces]
    rfl

/-- Tokens are read from a text exactly if it is these tokens written out. -/
theorem scan_eq_ok_iff {tokens : List Token} :
    scan text = .ok tokens ↔
      ∃ pieces tail, WellSpaced pieces tail ∧ text = written pieces tail ∧ pieces.map Piece.token = tokens := by
  constructor
  · -- a text that begins with a blank widens the first gap, and one with a spelling adds a piece
    induction text using text_induction generalizing tokens with
    | nil =>
      intro h
      rw [scan] at h
      cases h
      exact ⟨[], [], wellSpaced_nil_iff.2 (List.forall_mem_nil _), rfl, rfl⟩
    | blank c rest hc ih =>
      intro h
      rw [scan_blank hc] at h
      obtain ⟨pieces, tail, hspaced, rfl, rfl⟩ := ih h
      obtain ⟨pieces', tail', hspaced', htext, htokens⟩ := exists_written_blank hc hspaced
      exact ⟨pieces', tail', hspaced', htext, htokens.symm⟩
    | spelled token spelling rest hspelled hstops ih =>
      intro h
      rw [scan_spelled hspelled hstops] at h
      cases hrest : scan rest with
      | error reason =>
        rw [hrest] at h
        cases h
      | ok found =>
        rw [hrest] at h
        cases h
        obtain ⟨pieces, tail, hspaced, rfl, rfl⟩ := ih hrest
        refine ⟨⟨[], token, spelling⟩ :: pieces, tail, wellSpaced_cons_iff.2 ?_, ?_, rfl⟩
        · exact ⟨hspelled, List.forall_mem_nil _, hstops, hspaced⟩
        · rw [written_cons]
          rfl
    | badRun run rest hne hrun hstops hbad =>
      intro h
      rw [scan_numerals hne hrun hstops, hbad] at h
      cases h
    | foreign c rest hc =>
      intro h
      rw [scan_foreign hc] at h
      cases h
  · rintro ⟨pieces, tail, hspaced, rfl, rfl⟩
    exact scan_written hspaced

end Resample.Size.Token
