import Resample.Size.Output
import Resample.Proofs.Number.Exact
import Resample.Proofs.Size.Tokens
import Resample.Proofs.Steps

/-!
# Output sizes

Whatever the expressions are, an output has pixels and is not too large for its input, as long as the sides
of the input are their own signed readings. The expressions that name the sides of the input keep them, as
long as the input is not so large that no output may be.
-/

namespace Resample.Size

/-- Values that give a size come to positive sides within the limit, of which the size has the words. -/
theorem exists_of_resolve {width height inWidth inHeight : Int} {size : Nat × Nat}
    (h : resolve width height inWidth inHeight = .ok size) :
    ∃ w h, 0 < w ∧ 0 < h ∧ h * inWidth ≤ productLimit ∧ w * inHeight ≤ productLimit ∧
      size = (Word.unsigned w, Word.unsigned h) := by
  unfold resolve at h
  simp only at h
  split at h
  · cases h
  · next hpos =>
    split at h
    · cases h
    · next hlimit =>
      cases h
      exact ⟨_, _, by omega, by omega, by omega, by omega, rfl⟩

/-- Helper: a side whose product with a side of the input is within the limit is a word. -/
private theorem unsigned_of_mul_le {side : Int} {n : Nat} (hside : 0 < side) (hn : 0 < n)
    (hlimit : side * n ≤ productLimit) : (Word.unsigned side : Int) = side := by
  obtain ⟨k, rfl⟩ := Int.eq_ofNat_of_zero_le (Int.le_of_lt hside)
  rw [← Int.natCast_mul] at hlimit
  have hbound : productLimit ≤ (Word.top : Int) := by decide
  have hle : k ≤ k * n := Nat.le_mul_of_pos_right k hn
  rw [Word.unsigned_of_le (by omega)]

/-- Where the sides of the input are their own signed readings, an output has no side of zero, and the
product of a side of the output and the other side of the input is within the limit. -/
theorem outputSize_within_limit {widthText heightText : String} {input : Stream} {output : PixelFormat}
    {size : Nat × Nat} (hwidth : 0 < input.shape.width) (hheight : 0 < input.shape.height)
    (hwidthLe : input.shape.width ≤ Word.greatest) (hheightLe : input.shape.height ≤ Word.greatest)
    (h : outputSize widthText heightText input output = .ok size) :
    0 < size.1 ∧ 0 < size.2 ∧ (size.2 * input.shape.width : Nat) ≤ productLimit ∧
      (size.1 * input.shape.height : Nat) ≤ productLimit := by
  unfold outputSize at h
  obtain ⟨first, -, h⟩ := bind_eq_ok_iff.1 h
  obtain ⟨second, -, h⟩ := bind_eq_ok_iff.1 h
  obtain ⟨w, h', hw, hh, hacross, hdown, rfl⟩ := exists_of_resolve h
  rw [Word.signed_of_le hwidthLe] at hacross
  rw [Word.signed_of_le hheightLe] at hdown
  -- the words of the sides are the sides, so nothing is lost in the size
  have hwide := unsigned_of_mul_le hw hheight hdown
  have hhigh := unsigned_of_mul_le hh hwidth hacross
  refine ⟨by omega, by omega, ?_, ?_⟩
  · rwa [Int.natCast_mul, hhigh]
  · rwa [Int.natCast_mul, hwide]

/-- A text of name characters is one name. -/
theorem tokenize_name {text : String} {c : Char} {rest : List Char} (htext : text.toList = c :: rest)
    (hstart : Token.isNameStart c) (hrest : rest.all Token.isNamePart) :
    Token.tokenize text = .ok [.name text] := by
  have hname : String.ofList (c :: rest) = text := by rw [← htext, String.ofList_toList]
  have hscan : Token.scan (c :: rest ++ []) = (Token.scan []).map (.name (String.ofList (c :: rest)) :: ·) :=
    Token.scan_spelled (.name hstart (List.all_eq_true.1 hrest)) fun _ hd => by cases hd
  rw [List.append_nil, hname, Token.scan] at hscan
  unfold Token.tokenize
  rw [htext, hscan]
  rfl

/-- An expression that is one name has the value of that name, without its fraction. -/
theorem evaluate_name {env : Environment} {text name : String} {value : Double} {whole : Int}
    (htokens : Token.tokenize text = .ok [.name name]) (hvalue : env name = some value)
    (hwhole : value.truncate? = some whole)
    (hrange : ((Binary.ofNat valueLimit).lt value || value.lt (-Binary.ofNat valueLimit)) = false) :
    evaluate env text = .ok whole := by
  have hsum : sum env [.name name] = .ok (value, ⟨[], by simp⟩) := by
    simp [sum, product, factor, productFrom, sumFrom, hvalue, bind, Except.bind, pure, Except.pure,
      Reading.widen]
  simp [evaluate, htokens, hsum, hwhole, hrange, bind, Except.bind, pure, Except.pure]

/-- Helper: a side as a value. -/
private theorem ofNat_side {n : Nat} (h : n ≤ productLimit) :
    (Binary.ofNat n : Double).truncate? = some (n : Int) ∧
      ((Binary.ofNat valueLimit).lt (Binary.ofNat n : Double) ||
        (Binary.ofNat n : Double).lt (-Binary.ofNat valueLimit)) = false := by
  have hone := Binary.Format.double.one_pos
  have hlimit : (Binary.ofNat valueLimit : Double) =
      .finite false (valueLimit * Binary.Format.double.one) := by decide +kernel
  have hsmall : n ≤ 0x7FFFFFFF := by
    unfold productLimit at h
    omega
  have hvalue : (Binary.ofNat n : Double) = .finite false (n * Binary.Format.double.one) :=
    Binary.ofNat_of_lt (Nat.lt_of_le_of_lt hsmall (by decide)) (by decide)
  have hbelow : n * Binary.Format.double.one ≤ valueLimit * Binary.Format.double.one :=
    Nat.mul_le_mul_right _ (Nat.le_trans hsmall (by decide))
  rw [hvalue, hlimit]
  constructor
  · simp only [Binary.truncate?]
    rw [Nat.mul_div_cancel _ hone]
    rfl
  · -- a side is between zero and the limit
    generalize n * Binary.Format.double.one = u at hbelow
    generalize valueLimit * Binary.Format.double.one = v at hbelow
    rw [Bool.or_eq_false_iff]
    constructor
    · exact decide_eq_false (Int.not_lt.2 (Int.ofNat_le.2 hbelow))
    · exact decide_eq_false (Int.not_lt.2
        (Int.le_trans (Int.neg_nonpos_of_nonneg (Int.natCast_nonneg v)) (Int.natCast_nonneg u)))

/-- Positive values are the sides, if they are not too large. -/
theorem resolve_of_pos {width height inWidth inHeight : Int} (hwidth : 0 < width) (hheight : 0 < height)
    (hacross : height * inWidth ≤ productLimit) (hdown : width * inHeight ≤ productLimit) :
    resolve width height inWidth inHeight = .ok (Word.unsigned width, Word.unsigned height) := by
  have hsides : derive width height inWidth inHeight = (width, height) := by
    have hboth : ¬ (width < 0 ∧ height < 0) := by omega
    have hsingle : ¬ width < 0 ∧ ¬ height < 0 := by omega
    simp only [derive, if_neg hboth, if_neg hsingle.1, if_neg hsingle.2]
  unfold resolve
  rw [hsides]
  simp only
  rw [if_neg (by omega), if_neg (by omega)]

/-- The expressions that name the sides of the input keep them. -/
theorem outputSize_same {input : Stream} (output : PixelFormat) (hwidth : 0 < input.shape.width)
    (hheight : 0 < input.shape.height)
    (harea : (input.shape.width * input.shape.height : Nat) ≤ productLimit) :
    outputSize "iw" "ih" input output = .ok (input.shape.width, input.shape.height) := by
  have hwidthLe : (input.shape.width : Int) ≤ productLimit :=
    Int.le_trans (Int.ofNat_le.2 (Nat.le_mul_of_pos_right _ hheight)) harea
  have hheightLe : (input.shape.height : Int) ≤ productLimit :=
    Int.le_trans (Int.ofNat_le.2 (Nat.le_mul_of_pos_left _ hwidth)) harea
  have htokens : Token.tokenize "iw" = .ok [.name "iw"] ∧ Token.tokenize "ih" = .ok [.name "ih"] :=
    ⟨tokenize_name rfl rfl rfl, tokenize_name rfl rfl rfl⟩
  -- the expressions have these values in all three rounds
  have hiw : ∀ w h, evaluate (environment input output w h) "iw" = .ok input.shape.width :=
    fun w h => evaluate_name htokens.1 rfl (ofNat_side hwidthLe).1 (ofNat_side hwidthLe).2
  have hih : ∀ w h, evaluate (environment input output w h) "ih" = .ok input.shape.height :=
    fun w h => evaluate_name htokens.2 rfl (ofNat_side hheightLe).1 (ofNat_side hheightLe).2
  have hsignedWidth : Word.signed input.shape.width = input.shape.width :=
    Word.signed_of_le (Int.le_trans hwidthLe (by decide))
  have hsignedHeight : Word.signed input.shape.height = input.shape.height :=
    Word.signed_of_le (Int.le_trans hheightLe (by decide))
  have hlimit : productLimit ≤ (Word.top : Int) := by decide
  unfold outputSize
  simp only [hiw, hih, mapError_ok, bind, Except.bind, orInput, hsignedWidth, hsignedHeight]
  rw [Int.natCast_mul] at harea
  rw [if_neg (by omega), if_neg (by omega),
    resolve_of_pos (by omega) (by omega) (by rwa [Int.mul_comm]) harea,
    Word.unsigned_of_le (by omega), Word.unsigned_of_le (by omega)]

end Resample.Size
