import Gn4124Core.CLang.Integers
import Mathlib.Data.List.Induction

/-!
# Scanning of hexadecimal numbers

`sscanf` for formats of literal characters, hexadecimal conversions and `%s`.  A format is a list
of directives, and a scan gives the items that were assigned, so that the value returned is the
length of this list; it is -1 instead of 0 where the text ends before the first conversion.

A number may have white space, a sign and a prefix in front of it.  `scanHex_spelled` says that a
spelled number (`Spelled`) is read as its value where something follows that ends it
(`EndsNumber`), and `sscanf_hex`, `sscanf_literal` and the lemmas behind them unfold a format
directive by directive, so that the scan of a text is computed by rewriting.
-/

namespace CLang

/-- The value of a hexadecimal digit. -/
def hexDigit (c : Char) : Option ℕ :=
  if 48 ≤ c.toNat ∧ c.toNat ≤ 57 then some (c.toNat - 48)
  else if 65 ≤ c.toNat ∧ c.toNat ≤ 70 then some (c.toNat - 55)
  else if 97 ≤ c.toNat ∧ c.toNat ≤ 102 then some (c.toNat - 87)
  else none

def isHexDigit (c : Char) : Bool := (hexDigit c).isSome

/-- White space in the C locale. -/
def isSpace (c : Char) : Bool := c.toNat = 32 ∨ 9 ≤ c.toNat ∧ c.toNat ≤ 13

/-- The number that digits stand for, the first being the most significant. -/
def hexValue (ds : List Char) : ℕ := ds.foldl (fun acc c => 16 * acc + (hexDigit c).getD 0) 0

/-- What `strtoul` with base 16 makes of a sign and digits. -/
def strtoulHex (m : DataModel) (negative : Bool) (ds : List Char) : ℕ :=
  if 2 ^ m.longBits ≤ hexValue ds then 2 ^ m.longBits - 1
  else if negative then toUlong m (-hexValue ds)
  else hexValue ds

/-- The sign in front of a number. -/
def scanSign : List Char → Bool × List Char
  | '-' :: s => (true, s)
  | '+' :: s => (false, s)
  | s => (false, s)

/-- The prefix that a hexadecimal number may have. -/
def scanPrefix : List Char → List Char
  | '0' :: 'x' :: s => s
  | '0' :: 'X' :: s => s
  | s => s

/-- `%x`, as an `unsigned long`: the value and the text behind it. -/
def scanHex (m : DataModel) (s : List Char) : Option (ℕ × List Char) :=
  let signed := scanSign (s.dropWhile isSpace)
  let digits := scanPrefix signed.2
  if digits.takeWhile isHexDigit = [] then none
  else some (strtoulHex m signed.1 (digits.takeWhile isHexDigit), digits.dropWhile isHexDigit)

inductive Directive where
  | literal (c : Char)
  | hex
  | word

inductive Item where
  | number (n : ℕ)
  | text (s : List Char)
deriving DecidableEq

/-- The items that are assigned before the first directive that fails. -/
def sscanf (m : DataModel) : List Directive → List Char → List Item
  | [], _ => []
  | .literal c :: format, s =>
      match s with
      | d :: rest => if d = c then sscanf m format rest else []
      | [] => []
  | .hex :: format, s =>
      match scanHex m s with
      | some (n, rest) => .number n :: sscanf m format rest
      | none => []
  | .word :: format, s =>
      let word := s.dropWhile isSpace
      if word.takeWhile (fun c => !isSpace c) = [] then []
      else .text (word.takeWhile fun c => !isSpace c) ::
        sscanf m format (word.dropWhile fun c => !isSpace c)

/-! ## Spelled numbers -/

/-- Hexadecimal digits, at least one. -/
structure HexDigits (ds : List Char) : Prop where
  nonempty : ds ≠ []
  digits : ∀ c ∈ ds, isHexDigit c = true

theorem HexDigits.of_all {ds : List Char} (hne : ds ≠ []) (hall : ds.all isHexDigit = true) :
    HexDigits ds :=
  ⟨hne, List.all_eq_true.mp hall⟩

/-- Neither a digit nor the letter of a prefix follows. -/
def EndsNumber (rest : List Char) : Prop :=
  ∀ c s, rest = c :: s → isHexDigit c = false ∧ c ≠ 'x' ∧ c ≠ 'X'

theorem endsNumber_nil : EndsNumber [] := fun _ _ h => by cases h

theorem endsNumber_cons {c : Char} {s : List Char}
    (h : isHexDigit c = false ∧ c ≠ 'x' ∧ c ≠ 'X') : EndsNumber (c :: s) := by
  intro d t heq
  injection heq with hc
  rwa [← hc]

theorem isSpace_of_isHexDigit {c : Char} (h : isHexDigit c = true) : isSpace c = false := by
  have hbounds : 48 ≤ c.toNat := by
    unfold isHexDigit hexDigit at h
    by_contra hlt
    rw [if_neg (by omega), if_neg (by omega), if_neg (by omega)] at h
    cases h
  unfold isSpace
  rw [decide_eq_false_iff_not]
  omega

/-- The digits in front of what ends a number are taken, and nothing else. -/
theorem takeWhile_digits {ds rest : List Char} (hds : ∀ c ∈ ds, isHexDigit c = true)
    (hrest : EndsNumber rest) :
    (ds ++ rest).takeWhile isHexDigit = ds ∧ (ds ++ rest).dropWhile isHexDigit = rest := by
  induction ds with
  | nil =>
      cases rest with
      | nil => exact ⟨rfl, rfl⟩
      | cons c s =>
          have hc := (hrest c s rfl).1
          exact ⟨List.takeWhile_cons_of_neg (by simp [hc]),
            List.dropWhile_cons_of_neg (by simp [hc])⟩
  | cons c ds ih =>
      have hc := hds c List.mem_cons_self
      obtain ⟨htake, hdrop⟩ := ih fun d hd => hds d (List.mem_cons_of_mem c hd)
      rw [List.cons_append, List.takeWhile_cons_of_pos hc, List.dropWhile_cons_of_pos hc, htake,
        hdrop]
      exact ⟨rfl, rfl⟩

theorem scanSign_of_digit {c : Char} {s : List Char} (h : isHexDigit c = true) :
    scanSign (c :: s) = (false, c :: s) := by
  unfold scanSign
  split
  · next heq =>
      injection heq with hc
      rw [hc] at h
      exact absurd h (by decide)
  · next heq =>
      injection heq with hc
      rw [hc] at h
      exact absurd h (by decide)
  · rfl

/-- Digits are not taken for a prefix. -/
theorem scanPrefix_digits {ds rest : List Char} (hds : HexDigits ds) (hrest : EndsNumber rest) :
    scanPrefix (ds ++ rest) = ds ++ rest := by
  have hsecond : ∀ c s, ds ++ rest = '0' :: c :: s → c ≠ 'x' ∧ c ≠ 'X' := by
    intro c s heq
    match ds, hds with
    | [d], _ =>
        injection heq with _ heq
        exact (hrest c s heq).2
    | d :: e :: ds, hds =>
        injection heq with _ heq
        injection heq with hc
        have hdigit := hds.digits e (by simp)
        rw [hc] at hdigit
        constructor
        · rintro rfl
          exact absurd hdigit (by decide)
        · rintro rfl
          exact absurd hdigit (by decide)
  unfold scanPrefix
  split
  · next heq => exact absurd rfl (hsecond _ _ heq).1
  · next heq => exact absurd rfl (hsecond _ _ heq).2
  · rfl

/-- What is read behind a sign and a prefix. -/
theorem scanHex_of_digits {m : DataModel} {s t ds rest : List Char}
    (hsign : scanSign (s.dropWhile isSpace) = (false, t)) (htail : scanPrefix t = ds ++ rest)
    (hds : HexDigits ds) (hrest : EndsNumber rest) (hlt : hexValue ds < 2 ^ m.longBits) :
    scanHex m s = some (hexValue ds, rest) := by
  obtain ⟨htake, hdrop⟩ := takeWhile_digits hds.digits hrest
  unfold scanHex
  simp only [hsign, htail, htake, hdrop]
  rw [if_neg hds.nonempty, strtoulHex, if_neg (by omega)]
  rfl

theorem scanHex_digits {m : DataModel} {ds rest : List Char} (hds : HexDigits ds)
    (hrest : EndsNumber rest) (hlt : hexValue ds < 2 ^ m.longBits) :
    scanHex m (ds ++ rest) = some (hexValue ds, rest) := by
  have hsign : scanSign ((ds ++ rest).dropWhile isSpace) = (false, ds ++ rest) := by
    match ds, hds with
    | c :: ds, hds =>
        have hdigit := hds.digits c List.mem_cons_self
        have hspace := isSpace_of_isHexDigit hdigit
        rw [List.cons_append, List.dropWhile_cons_of_neg (by simp [hspace]),
          scanSign_of_digit hdigit]
  exact scanHex_of_digits hsign (scanPrefix_digits hds hrest) hds hrest hlt

/-- A number with or without prefix. -/
inductive Spelled (n : ℕ) : List Char → Prop
  | plain {ds : List Char} (hds : HexDigits ds) (hn : hexValue ds = n) : Spelled n ds
  | lower {ds : List Char} (hds : HexDigits ds) (hn : hexValue ds = n) :
      Spelled n ('0' :: 'x' :: ds)
  | upper {ds : List Char} (hds : HexDigits ds) (hn : hexValue ds = n) :
      Spelled n ('0' :: 'X' :: ds)

/-- A spelled number is read as this number. -/
theorem scanHex_spelled {m : DataModel} {n : ℕ} {s rest : List Char} (h : Spelled n s)
    (hrest : EndsNumber rest) (hlt : n < 2 ^ m.longBits) :
    scanHex m (s ++ rest) = some (n, rest) := by
  cases h with
  | plain hds hn =>
      rw [← hn] at hlt ⊢
      exact scanHex_digits hds hrest hlt
  | lower hds hn =>
      rw [← hn] at hlt ⊢
      exact scanHex_of_digits rfl rfl hds hrest hlt
  | upper hds hn =>
      rw [← hn] at hlt ⊢
      exact scanHex_of_digits rfl rfl hds hrest hlt

/-! ## The values of digits -/

theorem hexDigit_lt {c : Char} {n : ℕ} (h : hexDigit c = some n) : n < 16 := by
  unfold hexDigit at h
  split at h
  · injection h with h
    omega
  · split at h
    · injection h with h
      omega
    · split at h
      · injection h with h
        omega
      · cases h

theorem hexValue_concat (ds : List Char) (c : Char) :
    hexValue (ds ++ [c]) = 16 * hexValue ds + (hexDigit c).getD 0 := by
  simp [hexValue, List.foldl_append]

/-- Every digit has four bits. -/
theorem hexValue_lt (ds : List Char) : hexValue ds < 16 ^ ds.length := by
  induction ds using List.reverseRecOn with
  | nil => exact Nat.one_pos
  | append_singleton ds c ih =>
      have hdigit : (hexDigit c).getD 0 < 16 := by
        cases h : hexDigit c with
        | none => exact Nat.zero_lt_of_lt (by decide : 0 < 16)
        | some n => exact hexDigit_lt h
      rw [hexValue_concat, List.length_append, List.length_singleton, Nat.pow_succ]
      omega

/-! ## The directives one by one -/

section Directives

variable {m : DataModel} {format : List Directive} {n : ℕ} {s rest : List Char} {c : Char}

theorem sscanf_hex (h : scanHex m s = some (n, rest)) :
    sscanf m (.hex :: format) s = .number n :: sscanf m format rest := by
  simp only [sscanf, h]

theorem sscanf_literal : sscanf m (.literal c :: format) (c :: s) = sscanf m format s :=
  if_pos rfl

theorem sscanf_nil : sscanf m [] s = [] := by
  unfold sscanf
  rfl

theorem sscanf_word_nil : sscanf m (.word :: format) [] = [] := rfl

end Directives

end CLang
