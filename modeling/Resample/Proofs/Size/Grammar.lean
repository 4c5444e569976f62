import Resample.Size.Expr
import Resample.Proofs.Steps

/-!
# The grammar of size expressions

The readers of size expressions are compared with a grammar. A sum is a product and any number of products
after it, joined by plus and minus; a product is a factor and any number of factors after it, joined by times
and divide; a factor is a number, a known variable, a factor with a sign, or a sum in parentheses. What a list
of tokens derives from the grammar is a tree, in which operators of one kind group from the left. There is at
most one tree, and the readers take all tokens exactly if there is one in which nothing is divided by zero.
Then they give its value.

## Contents

- §1 trees, §2 the grammar, §3 the readers one step at a time, §4 readings are derivations,
  §5 derivations are readings, §6 one tree at most, §7 whole lists of tokens
-/

namespace Resample.Size

/-! ## §1 Trees -/

/-- The operation of an operator. -/
def Operator.apply : Operator → Double → Double → Double
  | plus, a, b => a + b
  | minus, a, b => a - b
  | times, a, b => a * b
  | divide, a, b => a / b

/-- What is meant by an expression. Parentheses and plus signs leave no mark in it. -/
inductive Tree where
  | number (value : Double)
  | name (text : String)
  | negation (tree : Tree)
  | binary (op : Operator) (left right : Tree)
deriving DecidableEq, Repr

namespace Tree

/-- The value of a tree. -/
def value (env : Environment) : Tree → Double
  | number value => value
  | name text => (env text).getD .nan
  | negation tree => -tree.value env
  | binary op left right => op.apply (left.value env) (right.value env)

/-- Whether nothing in a tree is divided by zero. -/
def Defined (env : Environment) : Tree → Prop
  | number _ => True
  | name _ => True
  | negation tree => tree.Defined env
  | binary op left right =>
    left.Defined env ∧ right.Defined env ∧ (op = .divide → (right.value env).isZero = false)

end Tree

/-! ## §2 The grammar -/

/-- The two kinds of chains: operands of one kind, joined by operators of one kind. -/
inductive Chain where
  | product
  | sum
deriving DecidableEq

/-- Whether an operator joins the operands of a chain. -/
def Chain.Joins : Chain → Operator → Prop
  | product, op => op = .times ∨ op = .divide
  | sum, op => op = .plus ∨ op = .minus

instance (c : Chain) (op : Operator) : Decidable (c.Joins op) := by
  cases c <;> exact inferInstanceAs (Decidable (_ ∨ _))

/-- The phrases of the grammar. -/
inductive Phrase where
  | factor
  | chain (c : Chain)
  /-- What follows the first operands of a chain, which are the given tree. -/
  | tail (c : Chain) (first : Tree)

/-- What a chain is made of. -/
def Chain.operand : Chain → Phrase
  | product => .factor
  | sum => .chain .product

/-- The tokens that derive from a phrase, with what they mean. -/
inductive Derives (env : Environment) : Phrase → List Token → Tree → Prop where
  /-- A number is a factor. -/
  | number (value : Double) : Derives env .factor [.number value] (.number value)
  /-- A known variable is a factor. -/
  | name {text : String} : (env text).isSome → Derives env .factor [.name text] (.name text)
  /-- A factor with a minus sign in front is a factor. -/
  | minus {ts : List Token} {t : Tree} :
      Derives env .factor ts t → Derives env .factor (.operator .minus :: ts) (.negation t)
  /-- A factor with a plus sign in front is a factor, and the sign leaves no trace. -/
  | plus {ts : List Token} {t : Tree} :
      Derives env .factor ts t → Derives env .factor (.operator .plus :: ts) t
  /-- A sum in parentheses is a factor. -/
  | parentheses {ts : List Token} {t : Tree} :
      Derives env (.chain .sum) ts t → Derives env .factor (.opening :: (ts ++ [.closing])) t
  /-- A chain is an operand and the tail that follows it. -/
  | chain {c : Chain} {ts us : List Token} {t u : Tree} :
      Derives env c.operand ts t → Derives env (.tail c t) us u → Derives env (.chain c) (ts ++ us) u
  /-- A tail may be empty. -/
  | last {c : Chain} {t : Tree} : Derives env (.tail c t) [] t
  /-- A tail may be an operator with one more operand, and the tail that follows these. -/
  | next {c : Chain} {op : Operator} {ts us : List Token} {t u v : Tree} :
      c.Joins op → Derives env c.operand ts u → Derives env (.tail c (.binary op t u)) us v →
      Derives env (.tail c t) (.operator op :: (ts ++ us)) v

/-! ## §3 The readers one step at a time -/

/-- The outcome of a reader: a value, and the tokens that are left. -/
def Reads {n : Nat} (x : Except ExprError (Reading n)) (value : Double) (rest : List Token) : Prop :=
  ∃ h, x = .ok (value, ⟨rest, h⟩)

/-- What the reader of a tail gives after a value. -/
def Chain.ReadsAfter (env : Environment) : Chain → Double → List Token → Double → List Token → Prop
  | product, first, ts => Reads (productFrom env first ts)
  | sum, first, ts => Reads (sumFrom env first ts)

/-- What the reader of a phrase gives. -/
def Phrase.Reads (env : Environment) : Phrase → List Token → Double → List Token → Prop
  | factor, ts => Size.Reads (Size.factor env ts)
  | chain .product, ts => Size.Reads (product env ts)
  | chain .sum, ts => Size.Reads (sum env ts)
  | tail c first, ts => c.ReadsAfter env (first.value env) ts

variable {env : Environment} {value : Double} {ts rest : List Token}

section
variable {m n : Nat}

theorem reads_ok_iff {r : Reading n} : Reads (.ok r) value rest ↔ r.1 = value ∧ r.2.1 = rest := by
  obtain ⟨v, left, h⟩ := r
  constructor
  · rintro ⟨h', heq⟩
    cases heq
    exact ⟨rfl, rfl⟩
  · rintro ⟨rfl, rfl⟩
    exact ⟨h, rfl⟩

theorem not_reads_error {e : ExprError} : ¬ Reads (.error e : Except ExprError (Reading n)) value rest :=
  fun ⟨_, h⟩ => nomatch h

/-- A reader that goes on with another one, of which it is known when it reads what. -/
theorem reads_bind_iff {x : Except ExprError (Reading m)} {f : Reading m → Except ExprError (Reading n)}
    {P : Double → List Token → Prop} (hf : ∀ v left h, Reads (f (v, ⟨left, h⟩)) value rest ↔ P v left) :
    Reads (x >>= f) value rest ↔ ∃ v left, Reads x v left ∧ P v left := by
  constructor
  · rintro ⟨h, hx⟩
    obtain ⟨⟨v, left, hleft⟩, hv, hrest⟩ := bind_eq_ok_iff.1 hx
    exact ⟨v, left, ⟨hleft, hv⟩, (hf v left hleft).1 ⟨h, hrest⟩⟩
  · rintro ⟨v, left, ⟨hleft, hv⟩, hP⟩
    obtain ⟨h, hrest⟩ := (hf v left hleft).2 hP
    exact ⟨h, bind_eq_ok_iff.2 ⟨_, hv, hrest⟩⟩

/-- A reading of fewer tokens is one of more. -/
theorem reads_widen_iff {x : Except ExprError (Reading m)} {h : m ≤ n} :
    Reads (do let r ← x; return r.widen h) value rest ↔ Reads x value rest := by
  cases x with
  | error e => exact iff_of_false not_reads_error not_reads_error
  | ok r =>
    have hr : Reads (.ok r) value rest ↔ r.1 = value ∧ r.2.1 = rest := reads_ok_iff
    exact reads_ok_iff.trans hr.symm

end

/-! ### Factors -/

theorem reads_number_iff {v : Double} :
    Phrase.factor.Reads env (.number v :: ts) value rest ↔ v = value ∧ ts = rest := by
  simp only [Phrase.Reads]
  rw [factor, reads_ok_iff]

theorem reads_name_iff {text : String} :
    Phrase.factor.Reads env (.name text :: ts) value rest ↔ env text = some value ∧ ts = rest := by
  simp only [Phrase.Reads]
  rw [factor]
  cases env text with
  | none => simp [not_reads_error]
  | some v => simp [reads_ok_iff]

theorem reads_minus_iff :
    Phrase.factor.Reads env (.operator .minus :: ts) value rest ↔
      ∃ v, Phrase.factor.Reads env ts v rest ∧ -v = value := by
  simp only [Phrase.Reads]
  rw [factor]
  refine (reads_bind_iff (P := fun v left => -v = value ∧ left = rest) fun v left h => reads_ok_iff).trans ?_
  constructor
  · rintro ⟨v, left, hv, hvalue, rfl⟩
    exact ⟨v, hv, hvalue⟩
  · rintro ⟨v, hv, hvalue⟩
    exact ⟨v, rest, hv, hvalue, rfl⟩

theorem reads_plus_iff :
    Phrase.factor.Reads env (.operator .plus :: ts) value rest ↔ Phrase.factor.Reads env ts value rest := by
  simp only [Phrase.Reads]
  rw [factor, reads_widen_iff]

/-- A sum in parentheses is read up to its closing parenthesis. -/
theorem reads_opening_iff :
    Phrase.factor.Reads env (.opening :: ts) value rest ↔
      (Phrase.chain .sum).Reads env ts value (.closing :: rest) := by
  simp only [Phrase.Reads]
  rw [factor, reads_bind_iff (P := fun v left => v = value ∧ left = .closing :: rest)]
  · constructor
    · rintro ⟨v, left, hv, rfl, rfl⟩
      exact hv
    · exact fun hv => ⟨value, _, hv, rfl, rfl⟩
  · intro v left h
    dsimp only
    split
    · rw [List.cons.injEq]
      exact reads_ok_iff.trans (by simp)
    · next hother =>
      refine iff_of_false not_reads_error ?_
      rintro ⟨-, rfl⟩
      exact hother _ h rfl HEq.rfl

/-! ### Chains -/

theorem reads_chain_iff {c : Chain} :
    (Phrase.chain c).Reads env ts value rest ↔
      ∃ v left, c.operand.Reads env ts v left ∧ c.ReadsAfter env v left value rest := by
  cases c <;> simp only [Phrase.Reads, Chain.operand, Chain.ReadsAfter]
  case product =>
    rw [product]
    exact reads_bind_iff fun v left h => reads_widen_iff
  case sum =>
    rw [sum]
    exact reads_bind_iff fun v left h => reads_widen_iff

/-- After an operator that joins, one more operand is read. It must not be zero if it divides. -/
theorem reads_next_iff {c : Chain} {op : Operator} {first : Double} (h : c.Joins op) :
    c.ReadsAfter env first (.operator op :: ts) value rest ↔
      ∃ v left, c.operand.Reads env ts v left ∧
        (op = .divide → v.isZero = false) ∧ c.ReadsAfter env (op.apply first v) left value rest := by
  cases c <;> obtain rfl | rfl := h <;>
    simp only [Phrase.Reads, Chain.operand, Chain.ReadsAfter, reduceCtorEq, false_implies, true_and]
  · rw [productFrom]
    exact reads_bind_iff fun v left h => reads_widen_iff
  · rw [productFrom]
    refine reads_bind_iff fun v left h => ?_
    dsimp only
    split
    · next hzero =>
      refine iff_of_false not_reads_error ?_
      rintro ⟨hne, -⟩
      exact Bool.false_ne_true ((hne trivial).symm.trans hzero)
    · next hzero =>
      rw [reads_widen_iff]
      exact (and_iff_right fun _ => Bool.eq_false_iff.2 hzero).symm
  · rw [sumFrom]
    exact reads_bind_iff fun v left h => reads_widen_iff
  · rw [sumFrom]
    exact reads_bind_iff fun v left h => reads_widen_iff

/-- Nothing else is read. -/
theorem reads_last_iff {c : Chain} {first : Double} (h : ∀ op us, ts = .operator op :: us → ¬ c.Joins op) :
    c.ReadsAfter env first ts value rest ↔ first = value ∧ ts = rest := by
  cases c <;> simp only [Chain.ReadsAfter]
  case product =>
    rw [productFrom]
    · exact reads_ok_iff
    · exact fun us hts => h _ us hts (.inl rfl)
    · exact fun us hts => h _ us hts (.inr rfl)
  case sum =>
    rw [sumFrom]
    · exact reads_ok_iff
    · exact fun us hts => h _ us hts (.inl rfl)
    · exact fun us hts => h _ us hts (.inr rfl)

/-! ## §4 Readings are derivations -/

/-- A factor begins with a token of five kinds. -/
theorem reads_factor_cases (h : Phrase.factor.Reads env ts value rest) :
    ts = .number value :: rest ∨ (∃ text, ts = .name text :: rest ∧ env text = some value) ∨
      (∃ us v, ts = .operator .minus :: us ∧ Phrase.factor.Reads env us v rest ∧ -v = value) ∨
      (∃ us, ts = .operator .plus :: us ∧ Phrase.factor.Reads env us value rest) ∨
      ∃ us, ts = .opening :: us ∧ (Phrase.chain .sum).Reads env us value (.closing :: rest) := by
  match ts with
  | .number v :: us =>
    obtain ⟨rfl, rfl⟩ := reads_number_iff.1 h
    exact .inl rfl
  | .name text :: us =>
    obtain ⟨hvalue, rfl⟩ := reads_name_iff.1 h
    exact .inr (.inl ⟨text, rfl, hvalue⟩)
  | .operator .minus :: us =>
    obtain ⟨v, hv, hvalue⟩ := reads_minus_iff.1 h
    exact .inr (.inr (.inl ⟨us, v, rfl, hv, hvalue⟩))
  | .operator .plus :: us => exact .inr (.inr (.inr (.inl ⟨us, rfl, reads_plus_iff.1 h⟩)))
  | .opening :: us => exact .inr (.inr (.inr (.inr ⟨us, rfl, reads_opening_iff.1 h⟩)))
  | [] | .operator .times :: us | .operator .divide :: us | .closing :: us =>
    exact absurd h (by simp only [Phrase.Reads, factor]; exact not_reads_error)

/-- Whether nothing in what a phrase begins with is divided by zero. -/
def Phrase.Defined (env : Environment) : Phrase → Prop
  | tail _ first => first.Defined env
  | _ => True

theorem Chain.defined_operand (c : Chain) : c.operand.Defined env := by
  cases c <;> trivial

/-- Phrases that begin with one another, in their order. -/
def Phrase.rank : Phrase → Nat
  | factor => 0
  | chain .product => 1
  | chain .sum => 2
  | tail _ _ => 0

theorem Chain.rank_operand_lt (c : Chain) : c.operand.rank < (Phrase.chain c).rank := by
  cases c <;> decide

theorem Chain.length_lt_of_reads_operand {c : Chain} (h : c.operand.Reads env ts value rest) :
    rest.length < ts.length := by
  cases c <;> exact h.1

/-- What is read derives from the phrase, and has its value. -/
theorem Phrase.Reads.exists_derives {p : Phrase} {ts : List Token} {value : Double} {rest : List Token}
    (h : p.Reads env ts value rest) (hp : p.Defined env) :
    ∃ used t, ts = used ++ rest ∧ Derives env p used t ∧ t.Defined env ∧ t.value env = value := by
  match p with
  | .factor =>
    obtain hts | ⟨text, hts, hvalue⟩ | ⟨us, v, hts, hv, rfl⟩ | ⟨us, hts, hv⟩ | ⟨us, hts, hv⟩ :=
      reads_factor_cases h
    · exact ⟨_, _, hts, .number value, trivial, rfl⟩
    · refine ⟨_, _, hts, .name (by rw [hvalue]; rfl), trivial, ?_⟩
      rw [Tree.value, hvalue, Option.getD_some]
    · have hlength : us.length < ts.length := hts ▸ Nat.lt_succ_self _
      obtain ⟨used, t, rfl, ht, hdefined, rfl⟩ := hv.exists_derives trivial
      exact ⟨_, _, hts, .minus ht, hdefined, rfl⟩
    · have hlength : us.length < ts.length := hts ▸ Nat.lt_succ_self _
      obtain ⟨used, t, rfl, ht, hdefined, rfl⟩ := hv.exists_derives trivial
      exact ⟨_, _, hts, .plus ht, hdefined, rfl⟩
    · -- the sum ends before its closing parenthesis, which belongs to the factor
      have hlength : us.length < ts.length := hts ▸ Nat.lt_succ_self _
      obtain ⟨used, t, rfl, ht, hdefined, rfl⟩ := hv.exists_derives trivial
      exact ⟨_, _, by simpa using hts, .parentheses ht, hdefined, rfl⟩
  | .chain c =>
    obtain ⟨v, left, hv, hleft⟩ := reads_chain_iff.1 h
    have hlength := Chain.length_lt_of_reads_operand hv
    obtain ⟨used, t, hused, ht, hdefined, rfl⟩ := hv.exists_derives c.defined_operand
    obtain ⟨more, u, rfl, hu, hdefined', rfl⟩ :=
      Phrase.Reads.exists_derives (p := .tail c t) hleft hdefined
    exact ⟨_, u, by rw [hused, List.append_assoc], .chain ht hu, hdefined', rfl⟩
  | .tail c first =>
    by_cases hnext : ∃ op us, ts = .operator op :: us ∧ c.Joins op
    · obtain ⟨op, us, hts, hjoins⟩ := hnext
      rw [hts, Phrase.Reads] at h
      obtain ⟨v, left, hv, hzero, hleft⟩ := (reads_next_iff hjoins).1 h
      have hlength : us.length < ts.length := hts ▸ Nat.lt_succ_self _
      have hlength' := Chain.length_lt_of_reads_operand hv
      obtain ⟨used, t, hused, ht, hdefined, rfl⟩ := hv.exists_derives c.defined_operand
      obtain ⟨more, u, rfl, hu, hdefined', rfl⟩ :=
        Phrase.Reads.exists_derives (p := .tail c (.binary op first t)) hleft ⟨hp, hdefined, hzero⟩
      exact ⟨_, u, by rw [hts, hused, List.cons_append, List.append_assoc], .next hjoins ht hu,
        hdefined', rfl⟩
    · obtain ⟨rfl, rfl⟩ := (reads_last_iff fun op us hts hjoins => hnext ⟨op, us, hts, hjoins⟩).1 h
      exact ⟨[], first, rfl, .last, hp, rfl⟩
termination_by (ts.length, p.rank)
decreasing_by
  -- only the first operand of a chain is read from the same tokens
  · exact Prod.Lex.left _ _ hlength
  · exact Prod.Lex.left _ _ hlength
  · exact Prod.Lex.left _ _ hlength
  · exact Prod.Lex.right _ c.rank_operand_lt
  · exact Prod.Lex.left _ _ hlength
  · exact Prod.Lex.left _ _ hlength
  · exact Prod.Lex.left _ _ (Nat.lt_trans hlength' hlength)

/-! ## §5 Derivations are readings -/

/-- Whether a chain goes on after an operator, by itself or by its last operand. -/
def Chain.Extends : Chain → Operator → Prop
  | product, op => product.Joins op
  | sum, _ => True

/-- Whether a phrase goes on after an operator. -/
def Phrase.Extends : Phrase → Operator → Prop
  | factor, _ => False
  | chain c, op | tail c _, op => c.Extends op

/-- Whether a phrase ends before the given tokens: they do not begin with an operator after which it goes on. -/
def Phrase.Stops (p : Phrase) (rest : List Token) : Prop :=
  ∀ op us, rest = .operator op :: us → ¬ p.Extends op

theorem Phrase.factor_stops : Phrase.factor.Stops rest := fun _ _ _ => id

theorem Phrase.stops_nil (p : Phrase) : p.Stops [] := nofun

theorem Phrase.stops_closing (p : Phrase) : p.Stops (.closing :: rest) := nofun

/-- The operators that join the operands of a chain are not among those after which an operand goes on. -/
theorem Chain.Joins.stops_operand {c : Chain} {op : Operator} (h : c.Joins op) :
    c.operand.Stops (.operator op :: rest) := by
  rintro _ _ ⟨rfl, rfl⟩
  cases c with
  | product => exact id
  | sum => obtain rfl | rfl := h <;> exact nofun

/-- An operand ends where its chain does. -/
theorem Chain.stops_operand {c : Chain} (h : (Phrase.chain c).Stops rest) : c.operand.Stops rest := by
  cases c with
  | product => exact Phrase.factor_stops
  | sum => exact fun op us hrest _ => h op us hrest trivial

/-- No operator joins where a chain ends. -/
theorem Chain.not_joins_of_stops {c : Chain} (h : (Phrase.chain c).Stops rest) (op : Operator)
    (us : List Token) (hrest : rest = .operator op :: us) : ¬ c.Joins op := by
  cases c with
  | product => exact h op us hrest
  | sum => exact fun _ => h op us hrest trivial

/-- An operand ends before the tail of its chain. -/
theorem Derives.stops_operand {c : Chain} {first t : Tree} (h : Derives env (.tail c first) ts t)
    (hrest : (Phrase.chain c).Stops rest) : c.operand.Stops (ts ++ rest) := by
  cases h with
  | last => exact Chain.stops_operand hrest
  | next hjoins _ _ => exact hjoins.stops_operand

/-- Where nothing in a tree is divided by zero, nothing is in what its phrase begins with. -/
theorem Derives.defined {p : Phrase} {t : Tree} (h : Derives env p ts t) (ht : t.Defined env) :
    p.Defined env := by
  induction h with
  | last => exact ht
  | next _ _ _ _ ih => exact (ih ht).1
  | _ => trivial

/-- What derives from a phrase is read with the value of its tree, if the phrase ends there and nothing is
divided by zero. -/
theorem Derives.reads {p : Phrase} {t : Tree} (h : Derives env p ts t) (ht : t.Defined env)
    (hrest : p.Stops rest) : p.Reads env (ts ++ rest) (t.value env) rest := by
  -- an operand stops where the tail of its chain begins, so the hypothesis passes down
  induction h generalizing rest with
  | number _ => exact reads_number_iff.2 ⟨rfl, rfl⟩
  | name hknown =>
    obtain ⟨v, hv⟩ := Option.isSome_iff_exists.1 hknown
    exact reads_name_iff.2 ⟨by rw [Tree.value, hv, Option.getD_some], rfl⟩
  | minus _ ih => exact reads_minus_iff.2 ⟨_, ih ht Phrase.factor_stops, rfl⟩
  | plus _ ih => exact reads_plus_iff.2 (ih ht Phrase.factor_stops)
  | parentheses _ ih =>
    rw [List.cons_append, List.append_assoc]
    exact reads_opening_iff.2 (ih ht (Phrase.stops_closing _))
  | chain _ hu ihfirst ihtail =>
    rw [List.append_assoc]
    exact reads_chain_iff.2 ⟨_, _, ihfirst (hu.defined ht) (hu.stops_operand hrest), ihtail ht hrest⟩
  | last => exact (reads_last_iff (Chain.not_joins_of_stops hrest)).2 ⟨rfl, rfl⟩
  | next hjoins _ hu ihoperand ihtail =>
    obtain ⟨-, hoperand, hzero⟩ := hu.defined ht
    rw [List.cons_append, List.append_assoc]
    exact (reads_next_iff hjoins).2
      ⟨_, _, ihoperand hoperand (hu.stops_operand hrest), hzero, ihtail ht hrest⟩

/-! ## §6 One tree at most -/

/-- Tokens have one tree, and it is known where they end. -/
theorem Derives.unique {p : Phrase} {t : Tree} (h : Derives env p ts t) {us left : List Token} {u : Tree}
    (h' : Derives env p us u) (heq : ts ++ rest = us ++ left) (hrest : p.Stops rest) (hleft : p.Stops left) :
    ts = us ∧ t = u := by
  induction h generalizing us u rest left with
  | number _ =>
    cases h' with
    | number _ =>
      cases heq
      exact ⟨rfl, rfl⟩
    | _ => cases heq
  | name _ =>
    cases h' with
    | name _ =>
      cases heq
      exact ⟨rfl, rfl⟩
    | _ => cases heq
  | minus _ ih =>
    cases h' with
    | minus h' =>
      obtain ⟨rfl, rfl⟩ := ih h' (List.cons.inj heq).2 hrest hleft
      exact ⟨rfl, rfl⟩
    | _ => cases heq
  | plus _ ih =>
    cases h' with
    | plus h' =>
      obtain ⟨rfl, rfl⟩ := ih h' (List.cons.inj heq).2 hrest hleft
      exact ⟨rfl, rfl⟩
    | _ => cases heq
  | parentheses _ ih =>
    cases h' with
    | parentheses h' =>
      -- the sums in the parentheses end at the closing parentheses
      rw [List.cons_append, List.cons_append, List.cons.injEq, List.append_assoc, List.append_assoc] at heq
      obtain ⟨rfl, rfl⟩ := ih h' heq.2 (Phrase.stops_closing _) (Phrase.stops_closing _)
      exact ⟨rfl, rfl⟩
    | _ => cases heq
  | chain _ htail ihfirst ihtail =>
    cases h' with
    | chain hfirst' htail' =>
      rw [List.append_assoc, List.append_assoc] at heq
      obtain ⟨rfl, rfl⟩ := ihfirst hfirst' heq (htail.stops_operand hrest) (htail'.stops_operand hleft)
      obtain ⟨rfl, rfl⟩ := ihtail htail' (List.append_cancel_left heq) hrest hleft
      exact ⟨rfl, rfl⟩
  | last =>
    cases h' with
    | last => exact ⟨rfl, rfl⟩
    | next hjoins _ _ => exact absurd hjoins (Chain.not_joins_of_stops hrest _ _ heq)
  | next hjoins _ htail ihoperand ihtail =>
    cases h' with
    | last => exact absurd hjoins (Chain.not_joins_of_stops hleft _ _ heq.symm)
    | next _ hoperand' htail' =>
      rw [List.cons_append, List.cons_append, List.cons.injEq, List.append_assoc, List.append_assoc] at heq
      obtain ⟨hop, heq⟩ := heq
      cases hop
      obtain ⟨rfl, rfl⟩ :=
        ihoperand hoperand' heq (htail.stops_operand hrest) (htail'.stops_operand hleft)
      obtain ⟨rfl, rfl⟩ := ihtail htail' (List.append_cancel_left heq) hrest hleft
      exact ⟨rfl, rfl⟩

/-! ## §7 Whole lists of tokens -/

/-- All tokens are read as one sum exactly if they have a tree in which nothing is divided by zero. -/
theorem reads_sum_nil_iff :
    Reads (sum env ts) value [] ↔
      ∃ t, Derives env (.chain .sum) ts t ∧ t.Defined env ∧ t.value env = value := by
  constructor
  · intro h
    obtain ⟨used, t, rfl, ht, hdefined, hvalue⟩ :=
      Phrase.Reads.exists_derives (p := .chain .sum) h trivial
    exact ⟨t, by rwa [List.append_nil], hdefined, hvalue⟩
  · rintro ⟨t, ht, hdefined, rfl⟩
    have h := ht.reads hdefined (Phrase.stops_nil _)
    rwa [List.append_nil] at h

/-- An expression whose tokens cannot be read has no value. -/
theorem evaluate_of_sum_error {text : String} {reason : ExprError} (htokens : Token.tokenize text = .ok ts)
    (h : sum env ts = .error reason) : evaluate env text = .error reason := by
  unfold evaluate
  rw [htokens]
  simp only [bind, Except.bind, h]

/-- An expression with tokens after its sum has no value. -/
theorem evaluate_of_rest {text : String} {r : Reading ts.length} (htokens : Token.tokenize text = .ok ts)
    (h : sum env ts = .ok r) (hrest : r.2.1 ≠ []) : evaluate env text = .error .trailingInput := by
  unfold evaluate
  rw [htokens]
  simp only [bind, Except.bind, h]
  rw [if_pos (by simpa using hrest)]
  rfl

/-- An expression with a value has a tree in which nothing is divided by zero, whose value is a number. -/
theorem exists_tree_of_evaluate {text : String} {whole : Int} (h : evaluate env text = .ok whole) :
    ∃ tokens t, Token.tokenize text = .ok tokens ∧ Derives env (.chain .sum) tokens t ∧ t.Defined env ∧
      (t.value env).truncate? = some whole := by
  unfold evaluate at h
  obtain ⟨tokens, htokens, h⟩ := bind_eq_ok_iff.1 h
  obtain ⟨⟨v, rest, hrest⟩, hsum, h⟩ := bind_eq_ok_iff.1 h
  dsimp only at h
  split at h
  · cases h
  · next hall =>
    split at h
    · cases h
    · next hvalue =>
      split at h
      · cases h
      · cases h
        have hnil : rest = [] := by simpa using hall
        subst hnil
        obtain ⟨t, ht, hdefined, rfl⟩ := reads_sum_nil_iff.1 ⟨hrest, hsum⟩
        exact ⟨tokens, t, htokens, ht, hdefined, hvalue⟩

/-- The readers accept the grammar. A list of tokens is read as a sum up to its end exactly if it has a tree in
which nothing is divided by zero, and then its value is the one of the tree, which is the only one. Otherwise
the readers end with an error or before the end of the list, and an expression of these tokens is refused with
that error, or for its trailing tokens.

The reader of sums alone does not refuse what follows a sum: of the tokens of `1 2` it reads the first, succeeds,
and leaves the second. Only `evaluate` looks at what is left, and refuses such an expression. -/
theorem sum_reads_iff_derives (env : Environment) (tokens : List Token) :
    (∀ value, (∃ h, sum env tokens = .ok (value, ⟨[], h⟩)) ↔
      ∃ t, Derives env (.chain .sum) tokens t ∧ t.Defined env ∧ t.value env = value) ∧
    (∀ t u, Derives env (.chain .sum) tokens t → Derives env (.chain .sum) tokens u → t = u) ∧
    ((∀ t, Derives env (.chain .sum) tokens t → ¬ t.Defined env) →
      (∃ reason, sum env tokens = .error reason ∧
        ∀ text, Token.tokenize text = .ok tokens → evaluate env text = .error reason) ∨
      ∃ value left, left.1 ≠ [] ∧ sum env tokens = .ok (value, left) ∧
        ∀ text, Token.tokenize text = .ok tokens → evaluate env text = .error .trailingInput) := by
  refine ⟨fun value => reads_sum_nil_iff, fun t u ht hu => ?_, fun hnone => ?_⟩
  · exact (ht.unique hu rfl (Phrase.stops_nil _) (Phrase.stops_nil _)).2
  · cases hsum : sum env tokens with
    | error reason => exact .inl ⟨reason, rfl, fun text htokens => evaluate_of_sum_error htokens hsum⟩
    | ok r =>
      obtain ⟨value, left, hleft⟩ := r
      have hrest : left ≠ [] := by
        rintro rfl
        obtain ⟨t, ht, hdefined, -⟩ := reads_sum_nil_iff.1 ⟨hleft, hsum⟩
        exact hnone t ht hdefined
      exact .inr ⟨value, ⟨left, hleft⟩, hrest, rfl,
        fun text htokens => evaluate_of_rest htokens hsum hrest⟩

/-- The reader of sums succeeds on two numbers such as those of `1 2`, and leaves the second. -/
example (a b : Double) :
    sum (fun _ => none) [.number a, .number b] = .ok (a, ⟨[.number b], Nat.lt_succ_self _⟩) := by
  cbv

/-- What the reader of sums leaves is refused by `evaluate`. -/
example (a : Double) : evaluate (fun _ => some a) "iw ih" = .error .trailingInput := by
  cbv

/-- With a width of 6, `8 - (iw + 2) / -4 - 1` is 9, and `8 / (iw - 6)` is refused. -/
theorem sum_reads_iff_derives_signed :
    ∃ (env : Environment) (tokens refused : List Token) (t u : Tree),
      tokens = [.number (.ofNat 8), .operator .minus, .opening, .name "iw", .operator .plus,
        .number (.ofNat 2), .closing, .operator .divide, .operator .minus, .number (.ofNat 4),
        .operator .minus, .number (.ofNat 1)] ∧
      Derives env (.chain .sum) tokens t ∧ t.Defined env ∧
      (∃ h, sum env tokens = .ok (.ofNat 9, ⟨[], h⟩)) ∧
      refused = [.number (.ofNat 8), .operator .divide, .opening, .name "iw", .operator .minus,
        .number (.ofNat 6), .closing] ∧
      Derives env (.chain .sum) refused u ∧ ¬ u.Defined env ∧
      ((∃ reason, sum env refused = .error reason) ∨
        ∃ value left, left.1 ≠ [] ∧ sum env refused = .ok (value, left)) := by
  let env : Environment := fun text => if text = "iw" then some (.ofNat 6) else none
  have single : ∀ {ts t}, Derives env .factor ts t → Derives env (.chain .product) ts t := fun h => by
    simpa using Derives.chain (c := .product) h .last
  have hwidth : Derives env (.chain .product) [.name "iw"] (.name "iw") := single (.name rfl)
  have hnumber : ∀ n : Nat, Derives env (.chain .product) [.number (.ofNat n)] (.number (.ofNat n)) :=
    fun n => single (.number _)
  -- the first list, from the parentheses outwards
  have hwider := Derives.chain (c := .sum) hwidth (.next (.inl rfl) (hnumber 2) .last)
  have hquotient := Derives.chain (c := .product) (.parentheses hwider)
    (.next (.inr rfl) (.minus (.number (.ofNat 4))) .last)
  have htree := Derives.chain (c := .sum) (hnumber 8)
    (.next (.inr rfl) hquotient (.next (.inr rfl) (hnumber 1) .last))
  -- the second one
  have hnothing := Derives.chain (c := .sum) hwidth (.next (.inr rfl) (hnumber 6) .last)
  have hrefused := Derives.chain (c := .sum)
    (Derives.chain (c := .product) (.number (.ofNat 8)) (.next (.inr rfl) (.parentheses hnothing) .last)) .last
  obtain ⟨hreads, -, -⟩ := sum_reads_iff_derives env _
  obtain ⟨-, hunique, hrefuses⟩ := sum_reads_iff_derives env _
  have hzero : ¬ Tree.Defined env
      (.binary .divide (.number (.ofNat 8)) (.binary .minus (.name "iw") (.number (.ofNat 6)))) :=
    fun h => absurd (h.2.2 rfl) (by decide +kernel)
  have hdefined : Tree.Defined env
      (.binary .minus
        (.binary .minus (.number (.ofNat 8))
          (.binary .divide (.binary .plus (.name "iw") (.number (.ofNat 2)))
            (.negation (.number (.ofNat 4)))))
        (.number (.ofNat 1))) := by
    refine ⟨⟨trivial, ⟨⟨trivial, trivial, nofun⟩, trivial, fun _ => ?_⟩, nofun⟩, trivial, nofun⟩
    decide +kernel
  refine ⟨env, _, _, _, _, rfl, htree, hdefined, (hreads _).2 ⟨_, htree, hdefined, by decide +kernel⟩, rfl,
    hrefused, hzero, ?_⟩
  obtain ⟨reason, hreason, -⟩ | ⟨value, left, hleft, hsum, -⟩ :=
    hrefuses fun v hv => hunique _ v hrefused hv ▸ hzero
  · exact .inl ⟨reason, hreason⟩
  · exact .inr ⟨value, left, hleft, hsum⟩

end Resample.Size
