import Resample.Size.Output
import Resample.Proofs.Size.Grammar

/-!
# Sizes that refer to themselves

An output side that is not known yet is the undefined value. No operation makes a number of it, so it reaches
the value of every expression that names the side, and such an expression is refused. Therefore no expression
may name the side that it gives, nor may each name the side that the other one gives.

## Contents

- §1 the undefined value, §2 the names of a tree, §3 refused expressions, §4 the rounds of an output size
-/

namespace Resample

/-! ## §1 The undefined value -/

namespace Binary

variable {F : Binary.Format}

theorem neg_nan : -(nan : Binary F) = nan := rfl

theorem nan_add (x : Binary F) : nan + x = nan := by cases x <;> rfl

theorem add_nan (x : Binary F) : x + nan = nan := by cases x <;> rfl

theorem nan_sub (x : Binary F) : nan - x = nan := by cases x <;> rfl

theorem sub_nan (x : Binary F) : x - nan = nan := by cases x <;> rfl

theorem nan_mul (x : Binary F) : nan * x = nan := by cases x <;> rfl

theorem mul_nan (x : Binary F) : x * nan = nan := by cases x <;> rfl

theorem nan_div (x : Binary F) : nan / x = nan := by cases x <;> rfl

theorem div_nan (x : Binary F) : x / nan = nan := by cases x <;> rfl

end Binary

namespace Size

/-- An operation whose left side is the undefined value gives the undefined value. -/
theorem Operator.nan_apply (op : Operator) (x : Double) : op.apply .nan x = .nan := by
  cases op with
  | plus => exact Binary.nan_add x
  | minus => exact Binary.nan_sub x
  | times => exact Binary.nan_mul x
  | divide => exact Binary.nan_div x

/-- An operation whose right side is the undefined value gives the undefined value. -/
theorem Operator.apply_nan (op : Operator) (x : Double) : op.apply x .nan = .nan := by
  cases op with
  | plus => exact Binary.add_nan x
  | minus => exact Binary.sub_nan x
  | times => exact Binary.mul_nan x
  | divide => exact Binary.div_nan x

/-! ## §2 The names of a tree -/

/-- The variables of a tree, from the left to the right. -/
def Tree.names : Tree → List String
  | number _ => []
  | name text => [text]
  | negation tree => tree.names
  | binary _ left right => left.names ++ right.names

/-- The name that a token is, if it is one. -/
def Token.name? : Token → Option String
  | name text => some text
  | _ => none

/-- The variables that a phrase begins with. -/
def Phrase.names : Phrase → List String
  | tail _ first => first.names
  | _ => []

variable {env : Environment}

theorem Chain.names_operand (c : Chain) : c.operand.names = [] := by
  cases c <;> rfl

/-- The variables of a tree are the names among its tokens. -/
theorem Derives.names_eq {p : Phrase} {ts : List Token} {t : Tree} (h : Derives env p ts t) :
    t.names = p.names ++ ts.filterMap Token.name? := by
  induction h with
  | number _ => rfl
  | name _ => rfl
  | minus _ ih => exact ih
  | plus _ ih => exact ih
  | parentheses _ ih =>
    rw [ih, List.filterMap_cons_none rfl, List.filterMap_append]
    simp [Phrase.names, Token.name?]
  | chain _ _ ihfirst ihtail =>
    rw [Chain.names_operand, List.nil_append] at ihfirst
    rw [ihtail, List.filterMap_append, Phrase.names, ihfirst]
    rfl
  | last => exact (List.append_nil _).symm
  | next _ _ _ ihoperand ihtail =>
    rw [Chain.names_operand, List.nil_append] at ihoperand
    rw [ihtail, List.filterMap_cons_none rfl, List.filterMap_append, Phrase.names, Phrase.names, Tree.names,
      ihoperand, List.append_assoc]

/-- A tree with an undefined variable is undefined. -/
theorem Tree.value_eq_nan {t : Tree} {text : String} (hname : text ∈ t.names) (hnan : env text = some .nan) :
    t.value env = .nan := by
  induction t with
  | number _ => exact absurd hname (List.not_mem_nil)
  | name _ =>
    obtain rfl := List.mem_singleton.1 hname
    rw [value, hnan, Option.getD_some]
  | negation t ih => rw [value, ih hname, Binary.neg_nan]
  | binary op left right ihleft ihright =>
    rw [value]
    obtain hleft | hright := List.mem_append.1 hname
    · rw [ihleft hleft, Operator.nan_apply]
    · rw [ihright hright, Operator.apply_nan]

/-! ## §3 Refused expressions -/

/-- Whether a text names one of some variables. Of a text that cannot be read into tokens, which has no value
anyway, this is said too. -/
def Mentions (text : String) (names : List String) : Prop :=
  ∀ tokens, Token.tokenize text = .ok tokens → ∃ name ∈ names, .name name ∈ tokens

theorem mentions_iff_all {text : String} {names : List String} :
    Mentions text names ↔
      (Token.tokenize text).toOption.all fun tokens => ∃ name ∈ names, .name name ∈ tokens := by
  unfold Mentions
  cases Token.tokenize text with
  | error reason => simp [Except.toOption]
  | ok tokens => simp [Except.toOption]

instance (text : String) (names : List String) : Decidable (Mentions text names) :=
  decidable_of_iff' _ mentions_iff_all

/-- An expression with an undefined variable is refused. -/
theorem exists_evaluate_eq_error {text : String} {names : List String} (hnames : Mentions text names)
    (hnan : ∀ name ∈ names, env name = some .nan) : ∃ reason, evaluate env text = .error reason := by
  cases h : evaluate env text with
  | error reason => exact ⟨reason, rfl⟩
  | ok whole =>
    obtain ⟨tokens, t, htokens, ht, -, hvalue⟩ := exists_tree_of_evaluate h
    obtain ⟨name, hname, hmem⟩ := hnames tokens htokens
    have hmem' : name ∈ t.names := by
      rw [ht.names_eq]
      exact List.mem_append_right _ (List.mem_filterMap.2 ⟨_, hmem, rfl⟩)
    -- the undefined value has no integer part
    rw [Tree.value_eq_nan hmem' (hnan name hname)] at hvalue
    cases hvalue

/-! ## §4 The rounds of an output size -/

variable {widthText heightText : String} {input : Stream} {output : PixelFormat}

/-- The width that the height may refer to. It is undefined if the width has no value yet. -/
def firstWidth (widthText : String) (input : Stream) (output : PixelFormat) : Double :=
  match (evaluate (environment input output .nan .nan) widthText).mapError (SizeError.expression widthText) with
  | .ok value => Binary.ofInt (orInput value input.shape.width)
  | .error _ => .nan

theorem firstWidth_of_error {reason : ExprError}
    (h : evaluate (environment input output .nan .nan) widthText = .error reason) :
    firstWidth widthText input output = .nan := by
  unfold firstWidth
  rw [h]
  rfl

/-- The height is evaluated with the first width, and the width once more with the height. -/
theorem outputSize_eq (widthText heightText : String) (input : Stream) (output : PixelFormat) :
    outputSize widthText heightText input output = (do
      let height ← (evaluate (environment input output (firstWidth widthText input output) .nan)
        heightText).mapError (.expression heightText)
      let width ← (evaluate (environment input output (firstWidth widthText input output)
        (Binary.ofInt (orInput height input.shape.height))) widthText).mapError (.expression widthText)
      resolve (orInput width input.shape.width) (orInput height input.shape.height)
        (Word.signed input.shape.width) (Word.signed input.shape.height)) := rfl

/-- There is no size if the height is refused. -/
theorem outputSize_of_height_error {reason : ExprError}
    (h : evaluate (environment input output (firstWidth widthText input output) .nan) heightText =
      .error reason) :
    outputSize widthText heightText input output = .error (.expression heightText reason) := by
  rw [outputSize_eq, h]
  rfl

/-- There is no size if the width is refused whatever the height is. -/
theorem exists_outputSize_of_width_error
    (h : ∀ height, ∃ reason, evaluate (environment input output (firstWidth widthText input output) height)
      widthText = .error reason) :
    ∃ text reason, (text = widthText ∨ text = heightText) ∧
      outputSize widthText heightText input output = .error (.expression text reason) := by
  cases hheight : evaluate (environment input output (firstWidth widthText input output) .nan)
      heightText with
  | error reason => exact ⟨heightText, reason, .inr rfl, outputSize_of_height_error hheight⟩
  | ok height =>
    obtain ⟨reason, hreason⟩ := h (Binary.ofInt (orInput height input.shape.height))
    refine ⟨widthText, reason, .inl rfl, ?_⟩
    rw [outputSize_eq, hheight, mapError_ok]
    simp only [bind, Except.bind, hreason]
    rfl

/-- The names of the output width stand for the output width. -/
theorem environment_width (input : Stream) (output : PixelFormat) (w h : Double) :
    ∀ name ∈ ["ow", "out_w"], environment input output w h name = some w := by
  simp [environment]

/-- The names of the output height stand for the output height. -/
theorem environment_height (input : Stream) (output : PixelFormat) (w h : Double) :
    ∀ name ∈ ["oh", "out_h"], environment input output w h name = some h := by
  simp [environment]

/-- Sizes that refer to themselves are refused. If the width names the output width, or the height the output
height, or each of them the other one, then one of the two expressions is refused, whatever else is in them. -/
theorem exists_outputSize_eq_error
    (h : Mentions widthText ["ow", "out_w"] ∨ Mentions heightText ["oh", "out_h"] ∨
      (Mentions widthText ["oh", "out_h"] ∧ Mentions heightText ["ow", "out_w"])) :
    ∃ text reason, (text = widthText ∨ text = heightText) ∧
      outputSize widthText heightText input output = .error (.expression text reason) := by
  obtain hwidth | hheight | ⟨hwidth, hheight⟩ := h
  · -- the width has no value before the width is known, so it stays unknown
    have hundefined : ∀ height, ∃ reason, evaluate (environment input output .nan height) widthText =
        .error reason := fun height =>
      exists_evaluate_eq_error hwidth (environment_width input output .nan height)
    obtain ⟨reason, hreason⟩ := hundefined .nan
    apply exists_outputSize_of_width_error
    rwa [firstWidth_of_error hreason]
  · obtain ⟨reason, hreason⟩ := exists_evaluate_eq_error hheight
      (environment_height input output (firstWidth widthText input output) .nan)
    exact ⟨heightText, reason, .inr rfl, outputSize_of_height_error hreason⟩
  · -- the width has no value before the height is known, and so the height has none either
    obtain ⟨first, hfirst⟩ := exists_evaluate_eq_error hwidth (environment_height input output .nan .nan)
    obtain ⟨reason, hreason⟩ := exists_evaluate_eq_error hheight (environment_width input output .nan .nan)
    refine ⟨heightText, reason, .inr rfl, outputSize_of_height_error ?_⟩
    rwa [firstWidth_of_error hfirst]

/-- No times the output height is refused as a width, beside a height that divides by the output width. -/
theorem exists_outputSize_eq_error_nested :
    Mentions "0*(oh)" ["oh", "out_h"] ∧ Mentions "-a/(ow)" ["ow", "out_w"] ∧
      ∃ text reason, (text = "0*(oh)" ∨ text = "-a/(ow)") ∧
        outputSize "0*(oh)" "-a/(ow)" ⟨⟨.yuv420p, 640, 480⟩, .unknown⟩ .nv12 =
          .error (.expression text reason) := by
  have hwidth : Mentions "0*(oh)" ["oh", "out_h"] := by decide +kernel
  have hheight : Mentions "-a/(ow)" ["ow", "out_w"] := by decide +kernel
  exact ⟨hwidth, hheight, exists_outputSize_eq_error (.inr (.inr ⟨hwidth, hheight⟩))⟩

end Size

end Resample
