import Gn4124Core.Rawrabbit.Devsel

/-!
# What a selector says, and what the clients make of it

Of a selector in any of its four forms `rrcmd` takes every part that is given.  `rr.py` matches
the same texts, but keeps vendor and device only, so that the clients agree exactly on the
selectors without optional parts.  The string of `info()` has both.

The selectors are built from digits (`HexField`, `Selector`), and `Selector.text` spells them, so
that every statement is about all spellings at once.  What each client makes of a text is
computed from its own parser and stated as one equation:

* `parseDevsel_text`, from `sscanf_pair` and `sscanf_part`: a number of the format ends where no
  further digit follows (`EndsNumber`), which is what the characters between the parts are for;
* `parseAddr_text`, from `matchAddr_text`: the expression of `rr.py` matches, and its groups are
  the parts, but the names under which two of them are looked up are those of no group
  (`partOrUnused_sub`, `partOrUnused_geo`).

`rrcmdDevsel_says_iff` and `pyDevsel_says_iff` compare the results with what the selector says.
For the string of `info()` the card has to come back as well: `rrDevget_identifies` says that
what the driver has given out selects the same card and no other.
-/

namespace Gn4124Core

open CLang

namespace Rawrabbit

/-! ## Selectors -/

/-- One to four hexadecimal digits. -/
structure HexField where
  digits : List Char
  hex : HexDigits digits
  le : digits.length ≤ 4

def HexField.value (f : HexField) : ℕ := hexValue f.digits

theorem HexField.value_lt (f : HexField) : f.value < 2 ^ 16 := by
  have hlt := hexValue_lt f.digits
  have hpow : 16 ^ f.digits.length ≤ 16 ^ 4 := Nat.pow_le_pow_right (by decide) f.le
  unfold value
  omega

theorem HexField.toNat_value (f : HexField) : (BitVec.ofNat 16 f.value).toNat = f.value := by
  rw [BitVec.toNat_ofNat]
  exact Nat.mod_eq_of_lt f.value_lt

/-- `v:d`, `v:d/s:t`, `v:d@b:f` or `v:d/s:t@b:f`. -/
structure Selector where
  id : HexField × HexField
  sub : Option (HexField × HexField)
  geo : Option (HexField × HexField)

def fieldsText (p : HexField × HexField) : List Char := p.1.digits ++ ':' :: p.2.digits

/-- An optional part with the character in front of it. -/
def partText (c : Char) : Option (HexField × HexField) → List Char
  | none => []
  | some p => c :: fieldsText p

def Selector.text (sel : Selector) : List Char :=
  fieldsText sel.id ++ (partText '/' sel.sub ++ (partText '@' sel.geo ++ []))

/-! ## What is asked of the clients -/

section Specification

variable (m : DataModel) (stack : RrDevsel) (sel : Selector)

/-- Every given field has its value, and the marks for unused parts stand where a part is absent. -/
structure Says (d : RrDevsel) : Prop where
  id : d.vendor.toNat = sel.id.1.value ∧ d.device.toNat = sel.id.2.value
  sub : ∀ p, sel.sub = some p → d.subvendor.toNat = p.1.value ∧ d.subdevice.toNat = p.2.value
  geo : ∀ p, sel.geo = some p → d.bus.toNat = p.1.value ∧ d.devfn.toNat = p.2.value
  no_sub : d.subvendor = rrDevselUnused ↔ sel.sub = none
  no_geo : d.bus = rrDevselUnused ↔ sel.geo = none

/-- The driver takes this card for the selector, and no other. -/
def Identifies (d : RrDevsel) (card : Card) : Prop := ∀ other, devselMatches d other ↔ other = card

/-- Both clients parse the selector to what it says; they request the same binding; and if it is
the string of `info()`, this is the binding to the same card. -/
def BothRight : Prop :=
  ∃ d d', parseAddr sel.text = some d ∧ parseDevsel m stack sel.text = .ok d' ∧
    Says sel d ∧ Says sel d' ∧ (∀ card, devselMatches d card ↔ devselMatches d' card) ∧
    ∀ card, sel.text = info card → Identifies d card ∧ Identifies d' card

end Specification

/-! ## What ends a number -/

theorem endsNumber_colon (s : List Char) : EndsNumber (':' :: s) :=
  endsNumber_cons ⟨by decide, by decide, by decide⟩

theorem endsNumber_part {c : Char} (hc : c = '/' ∨ c = '@') (part : Option (HexField × HexField))
    {rest : List Char} (hrest : EndsNumber rest) : EndsNumber (partText c part ++ rest) := by
  cases part with
  | none => exact hrest
  | some p =>
      rcases hc with rfl | rfl
      · exact endsNumber_cons ⟨by decide, by decide, by decide⟩
      · exact endsNumber_cons ⟨by decide, by decide, by decide⟩

/-! ## `rrcmd` -/

section Rrcmd

variable {m : DataModel} {format : List Directive} {rest : List Char}

theorem scanHex_field (f : HexField) (hrest : EndsNumber rest) :
    scanHex m (f.digits ++ rest) = some (f.value, rest) := by
  have hlt := f.value_lt
  have hbits := two_pow_32_le m
  refine scanHex_digits f.hex hrest ?_
  unfold HexField.value at hlt
  omega

variable (m format) in
/-- The directives of a pair read a pair. -/
theorem sscanf_pair (p : HexField × HexField) (hrest : EndsNumber rest) :
    sscanf m (.hex :: .literal ':' :: .hex :: format) (fieldsText p ++ rest) =
      .number p.1.value :: .number p.2.value :: sscanf m format rest := by
  have htext : fieldsText p ++ rest = p.1.digits ++ ':' :: (p.2.digits ++ rest) := by
    rw [fieldsText, List.append_assoc, List.cons_append]
  rw [htext, sscanf_hex (scanHex_field p.1 (endsNumber_colon _)), sscanf_literal,
    sscanf_hex (scanHex_field p.2 hrest)]

variable (m format) in
/-- A part that is given is read behind its character. -/
theorem sscanf_part (c : Char) (p : HexField × HexField) (hrest : EndsNumber rest) :
    sscanf m (.literal c :: .hex :: .literal ':' :: .hex :: format)
        (partText c (some p) ++ rest) =
      .number p.1.value :: .number p.2.value :: sscanf m format rest := by
  rw [partText, List.cons_append, sscanf_literal, sscanf_pair m format p hrest]

/-- What `rrcmd` makes of a selector. -/
def Selector.rrcmdDevsel (sel : Selector) (stack : RrDevsel) : RrDevsel where
  vendor := .ofNat 16 sel.id.1.value
  device := .ofNat 16 sel.id.2.value
  subvendor := (sel.sub.map fun p => .ofNat 16 p.1.value).getD rrDevselUnused
  subdevice := (sel.sub.map fun p => .ofNat 16 p.2.value).getD stack.subdevice
  bus := (sel.geo.map fun p => .ofNat 16 p.1.value).getD rrDevselUnused
  devfn := (sel.geo.map fun p => .ofNat 16 p.2.value).getD stack.devfn

theorem length_fieldsText (p : HexField × HexField) : (fieldsText p).length ≤ 9 := by
  have hfirst := p.1.le
  have hsecond := p.2.le
  rw [fieldsText, List.length_append, List.length_cons]
  omega

theorem length_partText (c : Char) (part : Option (HexField × HexField)) :
    (partText c part).length ≤ 10 := by
  cases part with
  | none => exact Nat.zero_le _
  | some p =>
      have hpair := length_fieldsText p
      rw [partText, List.length_cons]
      omega

/-- A selector is short enough for `parse_devsel`. -/
theorem Selector.length_text (sel : Selector) : sel.text.length ≤ 32 := by
  have hid := length_fieldsText sel.id
  have hsub := length_partText '/' sel.sub
  have hgeo := length_partText '@' sel.geo
  rw [text, List.length_append, List.length_append, List.length_append, List.length_nil]
  omega

/-- **`rrcmd` takes every part that is given.** -/
theorem parseDevsel_text (stack : RrDevsel) (sel : Selector) :
    parseDevsel m stack sel.text = .ok (sel.rrcmdDevsel stack) := by
  have hlength := sel.length_text
  have hgeo_ends := endsNumber_part (.inr rfl) sel.geo endsNumber_nil
  have hsub_ends := endsNumber_part (.inl rfl) sel.sub hgeo_ends
  have hfull := sscanf_pair m [.literal '/', .hex, .literal ':', .hex, .literal '@', .hex,
    .literal ':', .hex] sel.id hsub_ends
  have hbus := sscanf_pair m [.literal '@', .hex, .literal ':', .hex] sel.id hsub_ends
  unfold parseDevsel
  rw [if_neg (by omega)]
  obtain ⟨id, sub, geo⟩ := sel
  cases sub with
  | none =>
      cases geo with
      | none =>
          have hfirst : sscanf m devselFormat (Selector.text ⟨id, none, none⟩) =
              [.number id.1.value, .number id.2.value] := hfull
          have hsecond : sscanf m devselBusFormat (Selector.text ⟨id, none, none⟩) =
              [.number id.1.value, .number id.2.value] := hbus
          simp only [hfirst, hsecond]
          rfl
      | some b =>
          have hfirst : sscanf m devselFormat (Selector.text ⟨id, none, some b⟩) =
              [.number id.1.value, .number id.2.value] := hfull
          have hpart := sscanf_part m [] '@' b endsNumber_nil
          have hsecond : sscanf m devselBusFormat (Selector.text ⟨id, none, some b⟩) =
              [.number id.1.value, .number id.2.value, .number b.1.value, .number b.2.value] := by
            rw [sscanf_nil] at hpart
            exact hbus.trans (congrArg (fun is => _ :: _ :: is) hpart)
          simp only [hfirst, hsecond]
          rfl
  | some s =>
      have hpart := sscanf_part m [.literal '@', .hex, .literal ':', .hex] '/' s hgeo_ends
      cases geo with
      | none =>
          have hfirst : sscanf m devselFormat (Selector.text ⟨id, some s, none⟩) =
              [.number id.1.value, .number id.2.value, .number s.1.value, .number s.2.value] :=
            hfull.trans (congrArg (fun is => _ :: _ :: is) hpart)
          simp only [hfirst]
          rfl
      | some b =>
          have hlast := sscanf_part m [] '@' b endsNumber_nil
          rw [sscanf_nil] at hlast
          have hfirst : sscanf m devselFormat (Selector.text ⟨id, some s, some b⟩) =
              [.number id.1.value, .number id.2.value, .number s.1.value, .number s.2.value,
                .number b.1.value, .number b.2.value] :=
            (hfull.trans (congrArg (fun is => _ :: _ :: is) hpart)).trans
              (congrArg (fun is => _ :: _ :: _ :: _ :: is) hlast)
          simp only [hfirst]
          rfl

/-- What `rrcmd` makes of a selector is what it says, unless a given part reads as unused. -/
theorem rrcmdDevsel_says_iff (stack : RrDevsel) (sel : Selector) :
    Says sel (sel.rrcmdDevsel stack) ↔
      (∀ p, sel.sub = some p → p.1.value ≠ 0xffff) ∧ ∀ p, sel.geo = some p → p.1.value ≠ 0xffff := by
  have hunused : ∀ f : HexField, BitVec.ofNat 16 f.value = rrDevselUnused ↔ f.value = 0xffff := by
    intro f
    rw [← BitVec.toNat_inj, f.toNat_value]
    rfl
  obtain ⟨id, sub, geo⟩ := sel
  constructor
  · rintro ⟨-, -, -, hsub, hgeo⟩
    constructor
    · intro p hp hvalue
      cases hp
      cases hsub.mp ((hunused p.1).mpr hvalue)
    · intro p hp hvalue
      cases hp
      cases hgeo.mp ((hunused p.1).mpr hvalue)
  · rintro ⟨hsub, hgeo⟩
    refine ⟨⟨id.1.toNat_value, id.2.toNat_value⟩, fun p hp => ?_, fun p hp => ?_, ?_, ?_⟩
    · cases hp
      exact ⟨p.1.toNat_value, p.2.toNat_value⟩
    · cases hp
      exact ⟨p.1.toNat_value, p.2.toNat_value⟩
    · cases sub with
      | none => exact iff_of_true rfl rfl
      | some p => exact iff_of_false (fun h => hsub p rfl ((hunused p.1).mp h)) (by simp)
    · cases geo with
      | none => exact iff_of_true rfl rfl
      | some p => exact iff_of_false (fun h => hgeo p rfl ((hunused p.1).mp h)) (by simp)

end Rrcmd

/-! ## `rr.py` -/

section Python

variable {rest : List Char}

theorem matchField_digits (f : HexField) (hrest : EndsNumber rest) :
    matchField (f.digits ++ rest) = some (f.digits, rest) := by
  have htake := (takeWhile_digits f.hex.digits hrest).1
  unfold matchField
  rw [htake, List.take_of_length_le f.le, if_neg f.hex.nonempty, List.drop_left]

theorem matchChar_self (c : Char) (s : List Char) : matchChar c (c :: s) = some s := if_pos rfl

theorem matchChar_ne {c d : Char} (h : d ≠ c) (s : List Char) : matchChar c (d :: s) = none :=
  if_neg h

theorem matchPair_text (p : HexField × HexField) (hrest : EndsNumber rest) :
    matchPair (fieldsText p ++ rest) = some ((p.1.digits, p.2.digits), rest) := by
  have htext : fieldsText p ++ rest = p.1.digits ++ ':' :: (p.2.digits ++ rest) := by
    rw [fieldsText, List.append_assoc, List.cons_append]
  unfold matchPair
  rw [htext, matchField_digits p.1 (endsNumber_colon _)]
  simp only [Option.bind_eq_bind, Option.bind_some, matchChar_self, matchField_digits p.2 hrest]

/-- The digits of a part, as the groups of the expression. -/
def partGroups (part : Option (HexField × HexField)) : Option (List Char × List Char) :=
  part.map fun p => (p.1.digits, p.2.digits)

theorem matchOptional_part {c : Char} (part : Option (HexField × HexField))
    (hrest : EndsNumber rest) (hnot : part = none → matchChar c rest = none) :
    matchOptional c (partText c part ++ rest) = (partGroups part, rest) := by
  unfold matchOptional
  cases part with
  | none =>
      rw [partText, List.nil_append, hnot rfl]
      rfl
  | some p =>
      rw [partText, List.cons_append, matchChar_self, Option.bind_some, matchPair_text p hrest]
      rfl

/-- The expression matches a selector, and its groups are the parts. -/
theorem matchAddr_text (sel : Selector) :
    matchAddr sel.text =
      some ⟨sel.id.1.digits, sel.id.2.digits, partGroups sel.sub, partGroups sel.geo⟩ := by
  have hgeo_ends := endsNumber_part (.inr rfl) sel.geo endsNumber_nil
  have hsub_ends := endsNumber_part (.inl rfl) sel.sub hgeo_ends
  have hslash : matchChar '/' (partText '@' sel.geo ++ []) = none := by
    cases sel.geo with
    | none => rfl
    | some p => exact matchChar_ne (by decide) _
  have hsub := matchOptional_part (c := '/') sel.sub hgeo_ends fun _ => hslash
  have hgeo := matchOptional_part (c := '@') sel.geo endsNumber_nil fun _ => rfl
  unfold matchAddr Selector.text
  rw [matchPair_text sel.id hsub_ends]
  simp only [Option.bind_eq_bind, Option.bind_some, hsub, hgeo]
  exact if_pos (.inl trivial)

/-- No group of the expression has one of these names. -/
theorem partOrUnused_sub (part : Option (List Char × List Char)) :
    partOrUnused "sub" part = some (rrDevselUnused, rrDevselUnused) :=
  if_pos (by simp [groupNames])

theorem partOrUnused_geo (part : Option (List Char × List Char)) :
    partOrUnused "geo" part = some (rrDevselUnused, rrDevselUnused) :=
  if_pos (by simp [groupNames])

/-- What `rr.py` makes of a selector. -/
def Selector.pyDevsel (sel : Selector) : RrDevsel :=
  ⟨.ofNat 16 sel.id.1.value, .ofNat 16 sel.id.2.value, rrDevselUnused, rrDevselUnused,
    rrDevselUnused, rrDevselUnused⟩

/-- **`rr.py` keeps vendor and device only.** -/
theorem parseAddr_text (sel : Selector) : parseAddr sel.text = some sel.pyDevsel := by
  unfold parseAddr
  simp only [matchAddr_text, Option.bind_eq_bind, Option.bind_some, partOrUnused_sub,
    partOrUnused_geo]
  rfl

theorem pyDevsel_says_iff (sel : Selector) :
    Says sel sel.pyDevsel ↔ sel.sub = none ∧ sel.geo = none := by
  constructor
  · rintro ⟨-, -, -, hsub, hgeo⟩
    exact ⟨hsub.mp rfl, hgeo.mp rfl⟩
  · rintro ⟨hsub, hgeo⟩
    refine ⟨⟨sel.id.1.toNat_value, sel.id.2.toNat_value⟩, fun p hp => ?_, fun p hp => ?_,
      iff_of_true rfl hsub, iff_of_true rfl hgeo⟩
    · rw [hsub] at hp
      cases hp
    · rw [hgeo] at hp
      cases hp

end Python

/-! ## The string of `info()` -/

section Info

theorem hexDigit_hexChar : ∀ n < 16, hexDigit (hexChar n) = some n := by decide

theorem isHexDigit_hexChar {n : ℕ} (h : n < 16) : isHexDigit (hexChar n) = true := by
  rw [isHexDigit, hexDigit_hexChar n h]
  rfl

/-- Four digits, as a field of a selector. -/
def field04 (v : BitVec 16) : HexField where
  digits := hex04 v
  hex := by
    refine ⟨by simp [hex04], fun c hc => ?_⟩
    simp only [hex04, List.mem_cons, List.not_mem_nil, or_false] at hc
    rcases hc with rfl | rfl | rfl | rfl <;> exact isHexDigit_hexChar (Nat.mod_lt _ (by decide))
  le := le_rfl

theorem field04_value (v : BitVec 16) : (field04 v).value = v.toNat := by
  have hlt := v.isLt
  have h1 := hexDigit_hexChar (v.toNat / 4096 % 16) (Nat.mod_lt _ (by decide))
  have h2 := hexDigit_hexChar (v.toNat / 256 % 16) (Nat.mod_lt _ (by decide))
  have h3 := hexDigit_hexChar (v.toNat / 16 % 16) (Nat.mod_lt _ (by decide))
  have h4 := hexDigit_hexChar (v.toNat % 16) (Nat.mod_lt _ (by decide))
  simp only [HexField.value, field04, hex04, hexValue, List.foldl_cons, List.foldl_nil, h1, h2, h3,
    h4, Option.getD_some]
  omega

/-- The selector that `info()` prints. -/
def infoSelector (card : Card) : Selector where
  id := (field04 (rrDevget card).vendor, field04 (rrDevget card).device)
  sub := some (field04 (rrDevget card).subvendor, field04 (rrDevget card).subdevice)
  geo := some (field04 (rrDevget card).bus, field04 (rrDevget card).devfn)

theorem infoSelector_text (card : Card) : (infoSelector card).text = info card := by
  simp [Selector.text, infoSelector, fieldsText, partText, field04, info]

/-- A selector without subvendor and subdevice is no string of `info()`. -/
theorem text_ne_info {sel : Selector} (hsub : sel.sub = none) (card : Card) :
    sel.text ≠ info card := by
  intro heq
  have hmatch := matchAddr_text sel
  rw [heq, ← infoSelector_text, matchAddr_text, hsub] at hmatch
  have hgroups := congrArg (Option.map Groups.sub) hmatch
  cases hgroups

/-- `rrcmd` reads the string of `info()` as what the driver has given. -/
theorem parseDevsel_info (m : DataModel) (stack : RrDevsel) (card : Card) :
    parseDevsel m stack (info card) = .ok (rrDevget card) := by
  have htext := parseDevsel_text (m := m) stack (infoSelector card)
  rw [infoSelector_text] at htext
  rw [htext]
  simp [Selector.rrcmdDevsel, infoSelector, field04_value]

/-- What the driver has given selects the card again, and no other. -/
theorem rrDevget_identifies {card : Card} (hsub : card.subsystemVendor ≠ rrDevselUnused) :
    Identifies (rrDevget card) card := by
  have hbus : (rrDevget card).bus ≠ rrDevselUnused := by
    intro heq
    have hvalue := congrArg BitVec.toNat heq
    have hlt := card.busNumber.isLt
    simp only [rrDevget, rrDevselUnused, BitVec.toNat_setWidth, BitVec.toNat_ofNat] at hvalue
    omega
  intro other
  constructor
  · rintro ⟨⟨hvendor, hdevice, hother⟩, hgeo⟩
    obtain ⟨hsubvendor, hsubdevice⟩ := hother hsub
    obtain ⟨hbusNumber, hdevfn⟩ := hgeo hbus
    rw [rrDevget, BitVec.toNat_setWidth_of_le (by decide), BitVec.toNat_inj] at hbusNumber hdevfn
    obtain ⟨v, d, s, t, b, f⟩ := other
    subst hvendor hdevice hsubvendor hsubdevice hbusNumber hdevfn
    rfl
  · rintro rfl
    refine ⟨⟨rfl, rfl, fun _ => ⟨rfl, rfl⟩⟩, fun _ => ⟨?_, ?_⟩⟩
    · exact BitVec.toNat_setWidth_of_le (by decide)
    · exact BitVec.toNat_setWidth_of_le (by decide)

end Info

/-- **When both clients parse a selector to what it says.**  They do if and only if it has no
optional part; the string of `info()` has both. -/
theorem selector_parsed_iff (m : DataModel) (stack : RrDevsel) :
    (∀ sel, BothRight m stack sel ↔ sel.sub = none ∧ sel.geo = none) ∧
      ∀ card, ∃ sel, sel.text = info card ∧ ¬ BothRight m stack sel := by
  have hiff : ∀ sel, BothRight m stack sel ↔ sel.sub = none ∧ sel.geo = none := by
    intro sel
    constructor
    · rintro ⟨d, -, hd, -, hsays, -⟩
      rw [parseAddr_text] at hd
      cases hd
      exact (pyDevsel_says_iff sel).mp hsays
    · rintro ⟨hsub, hgeo⟩
      have hrrcmd : Says sel (sel.rrcmdDevsel stack) := by
        rw [rrcmdDevsel_says_iff, hsub, hgeo]
        exact ⟨fun p hp => absurd hp (by simp), fun p hp => absurd hp (by simp)⟩
      refine ⟨_, _, parseAddr_text sel, parseDevsel_text stack sel,
        (pyDevsel_says_iff sel).mpr ⟨hsub, hgeo⟩, hrrcmd, fun card => ?_, fun card hinfo => ?_⟩
      · simp [devselMatches, Selector.pyDevsel, Selector.rrcmdDevsel, hsub, hgeo]
      · exact absurd hinfo (text_ne_info hsub card)
  refine ⟨hiff, fun card => ⟨infoSelector card, infoSelector_text card, fun hright => ?_⟩⟩
  have hnone := ((hiff _).mp hright).1
  cases hnone

/-- `1a39:0004@0020:0000`. -/
def busSelector : Selector := ⟨(field04 0x1a39#16, field04 0x0004#16), none,
  some (field04 0x0020#16, field04 0x0000#16)⟩

/-- The bus is given and parsed as unused. -/
theorem busSelector_not_right :
    ¬ BothRight .lp64 ⟨0#16, 0#16, 0#16, 0#16, 0#16, 0#16⟩ busSelector := by
  rintro ⟨d, -, hd, -, hsays, -⟩
  rw [parseAddr_text] at hd
  cases hd
  have hnone := ((pyDevsel_says_iff busSelector).mp hsays).2
  cases hnone

end Rawrabbit

end Gn4124Core
