import Gn4124Core.CLang.Scanf
import Gn4124Core.PyLang.Integers
import Mathlib.Data.Nat.Digits.Defs

/-!
# Python text

What programs use to write tables of hexadecimal numbers and to read them again: the conversion
`%.nX`, the lines of a file, `split`, slices of two characters, and `int` with base 16.  Numbers of
a fixed width are read back as what they are, modulo the width (`pyInt16_lowDigits`).
-/

namespace PyLang

open CLang

/-! ## Writing -/

/-- The digit of a number below 16, in upper case. -/
def upperDigit (n : ℕ) : Char := if n < 10 then Char.ofNat (48 + n) else Char.ofNat (55 + n)

/-- `'%.nX' % x`: the digits of the number, with zeros in front up to `n` digits. -/
def formatHex (n x : ℕ) : List Char :=
  let ds := (Nat.digits 16 x).reverse.map upperDigit
  List.replicate (n - ds.length) '0' ++ ds

/-- The low `n` digits of a number. -/
def lowDigits : ℕ → ℕ → List Char
  | 0, _ => []
  | n + 1, x => lowDigits n (x / 16) ++ [upperDigit (x % 16)]

theorem hexDigit_upperDigit {n : ℕ} (hn : n < 16) : hexDigit (upperDigit n) = some n := by
  have hall : ∀ n < 16, hexDigit (upperDigit n) = some n := by decide
  exact hall n hn

@[simp] theorem length_lowDigits (n x : ℕ) : (lowDigits n x).length = n := by
  induction n generalizing x with
  | zero => rfl
  | succ n ih => rw [lowDigits, List.length_append, ih, List.length_singleton]

theorem isHexDigit_lowDigits (n x : ℕ) : ∀ c ∈ lowDigits n x, isHexDigit c = true := by
  induction n generalizing x with
  | zero => simp [lowDigits]
  | succ n ih =>
      rw [lowDigits, List.forall_mem_append]
      refine ⟨ih (x / 16), ?_⟩
      rw [List.forall_mem_singleton, isHexDigit, hexDigit_upperDigit (Nat.mod_lt x (by decide))]
      rfl

/-- A number that fits is written with exactly as many digits. -/
theorem formatHex_eq {n x : ℕ} (hx : x < 16 ^ n) : formatHex n x = lowDigits n x := by
  induction n generalizing x with
  | zero =>
      have hzero : x = 0 := by omega
      rw [hzero]
      rfl
  | succ n ih =>
      have hhigh : x / 16 < 16 ^ n := by
        rw [Nat.pow_succ] at hx
        omega
      rw [lowDigits, ← ih hhigh]
      rcases Nat.eq_zero_or_pos x with rfl | hpos
      · simp [formatHex, List.replicate_succ', upperDigit]
      · simp [formatHex, Nat.digits_of_two_le_of_pos (by decide : 2 ≤ 16) hpos]

/-- The low digits of a number, behind those of what is above them. -/
theorem lowDigits_add (a b x : ℕ) :
    lowDigits (a + b) x = lowDigits a (x / 16 ^ b) ++ lowDigits b x := by
  induction b generalizing x with
  | zero => simp [lowDigits]
  | succ b ih =>
      rw [← Nat.add_assoc, lowDigits, ih, lowDigits, Nat.div_div_eq_div_mul, ← Nat.pow_succ',
        List.append_assoc]

theorem hexValue_lowDigits (n x : ℕ) : hexValue (lowDigits n x) = x % 16 ^ n := by
  induction n generalizing x with
  | zero => exact (Nat.mod_one x).symm
  | succ n ih =>
      rw [lowDigits, hexValue_concat, ih, hexDigit_upperDigit (Nat.mod_lt x (by decide)),
        Nat.pow_succ', Nat.mod_mul, Option.getD_some, Nat.add_comm]

/-! ## Reading -/

/-- The lines of a file, each with the character that ends it. -/
def lines : List Char → List (List Char)
  | [] => []
  | c :: s =>
      if c = '\n' then ['\n'] :: lines s
      else
        match lines s with
        | [] => [[c]]
        | l :: ls => (c :: l) :: ls

/-- `split` at white space. -/
def split (s : List Char) : List (List Char) := (s.splitOnP isSpace).filter (· ≠ [])

/-- `s[i : i + 2]`. -/
def pairAt (s : List Char) (i : ℕ) : List Char := (s.drop i).take 2

/-- `int(s, 16)`: white space, a sign, a prefix, digits, white space. -/
def pyInt16 (s : List Char) : Except PyError ℤ :=
  let signed := scanSign (s.dropWhile isSpace)
  let digits := scanPrefix signed.2
  let value : ℤ := hexValue (digits.takeWhile isHexDigit)
  if digits.takeWhile isHexDigit = [] ∨ (digits.dropWhile isHexDigit).dropWhile isSpace ≠ [] then
    .error .valueError
  else .ok (if signed.1 then -value else value)

/-- Digits are read as the number that they stand for. -/
theorem pyInt16_hexDigits {ds : List Char} (hds : HexDigits ds) :
    pyInt16 ds = .ok (hexValue ds) := by
  have hspace : ds.dropWhile isSpace = ds := by
    match ds, hds with
    | c :: ds, hds =>
        have hc := isSpace_of_isHexDigit (hds.digits c List.mem_cons_self)
        exact List.dropWhile_cons_of_neg (by simp [hc])
  have hsign : scanSign ds = (false, ds) := by
    match ds, hds with
    | c :: ds, hds => exact scanSign_of_digit (hds.digits c List.mem_cons_self)
  have hstart := scanPrefix_digits hds endsNumber_nil
  obtain ⟨htake, hdrop⟩ := takeWhile_digits hds.digits endsNumber_nil
  rw [List.append_nil] at hstart htake hdrop
  simp only [pyInt16, hspace, hsign, hstart, htake, hdrop]
  rw [if_neg (by simp [hds.nonempty])]
  rfl

theorem hexDigits_lowDigits {n : ℕ} (hn : 0 < n) (x : ℕ) : HexDigits (lowDigits n x) := by
  refine ⟨?_, isHexDigit_lowDigits n x⟩
  rw [← List.length_pos_iff, length_lowDigits]
  exact hn

theorem pyInt16_lowDigits {n : ℕ} (hn : 0 < n) (x : ℕ) :
    pyInt16 (lowDigits n x) = .ok (x % 16 ^ n : ℕ) := by
  rw [pyInt16_hexDigits (hexDigits_lowDigits hn x), hexValue_lowDigits]

/-- A line ends at the first line feed. -/
theorem lines_append {l : List Char} (hl : ∀ c ∈ l, c ≠ '\n') (rest : List Char) :
    lines (l ++ '\n' :: rest) = (l ++ ['\n']) :: lines rest := by
  induction l with
  | nil => rfl
  | cons c l ih =>
      rw [List.forall_mem_cons] at hl
      rw [List.cons_append, lines, if_neg hl.1, ih hl.2]
      rfl

/-- Two words on a line. -/
theorem split_two_words {a b : List Char} (ha : HexDigits a) (hb : HexDigits b) :
    split (a ++ ' ' :: (b ++ ['\n'])) = [a, b] := by
  have hspaces : ∀ {w : List Char}, HexDigits w → ∀ c ∈ w, isSpace c = false :=
    fun hw c hc => isSpace_of_isHexDigit (hw.digits c hc)
  rw [split, List.splitOnP_append_cons_of_forall_mem (hspaces ha) ' ' (by decide),
    List.splitOnP_append_cons_of_forall_mem (hspaces hb) '\n' (by decide)]
  simp [ha.nonempty, hb.nonempty]

/-- Two of the digits. -/
theorem pairAt_lowDigits (a b x : ℕ) :
    pairAt (lowDigits (a + (2 + b)) x) a = lowDigits 2 (x / 16 ^ b) := by
  have hdrop : (lowDigits (a + (2 + b)) x).drop a = lowDigits (2 + b) x := by
    rw [lowDigits_add]
    exact List.drop_left' (length_lowDigits a _)
  rw [pairAt, hdrop, lowDigits_add]
  exact List.take_left' (length_lowDigits 2 _)

end PyLang
