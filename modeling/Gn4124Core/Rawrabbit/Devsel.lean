import Gn4124Core.CLang.Scanf
import Gn4124Core.Rawrabbit.Driver

/-!
# Device selectors

A selector `vendor:device[/subvendor:subdevice][@bus:devfn]` is parsed by `rrcmd`, with `sscanf` in
two forms, and by `rr.py`, with a regular expression.  `rr.py` then asks for groups with names that
the expression does not have, and so takes the optional parts for absent even where they are given.
-/

namespace Gn4124Core

open CLang

namespace Rawrabbit

/-! ## `rrcmd` -/

/-- `"%hx:%hx/%hx:%hx@%hx:%hx"`. -/
def devselFormat : List Directive :=
  [.hex, .literal ':', .hex, .literal '/', .hex, .literal ':', .hex, .literal '@', .hex,
    .literal ':', .hex]

/-- `"%hx:%hx@%hx:%hx"`. -/
def devselBusFormat : List Directive :=
  [.hex, .literal ':', .hex, .literal '@', .hex, .literal ':', .hex]

/-- `parse_devsel`, up to the ioctl; the members of a `struct rr_devsel` on the stack have whatever
values. -/
def parseDevsel (m : DataModel) (stack : RrDevsel) (arg : List Char) : Except Errno RrDevsel :=
  let devsel := { stack with subvendor := rrDevselUnused, bus := rrDevselUnused }
  if 32 < arg.length then .error .einval
  else
    match sscanf m devselFormat arg with
    | [.number vendor, .number device, .number subvendor, .number subdevice, .number bus,
        .number devfn] =>
        .ok ⟨.ofNat 16 vendor, .ofNat 16 device, .ofNat 16 subvendor, .ofNat 16 subdevice,
          .ofNat 16 bus, .ofNat 16 devfn⟩
    | [.number vendor, .number device, .number subvendor, .number subdevice] =>
        .ok { devsel with
          vendor := .ofNat 16 vendor
          device := .ofNat 16 device
          subvendor := .ofNat 16 subvendor
          subdevice := .ofNat 16 subdevice }
    | [.number _, .number _] =>
        match sscanf m devselBusFormat arg with
        | [.number vendor, .number device, .number bus, .number devfn] =>
            .ok { devsel with
              vendor := .ofNat 16 vendor
              device := .ofNat 16 device
              bus := .ofNat 16 bus
              devfn := .ofNat 16 devfn }
        | [.number vendor, .number device] =>
            .ok { devsel with vendor := .ofNat 16 vendor, device := .ofNat 16 device }
        | _ => .error .einval
    | _ => .error .einval

/-! ## `rr.py` -/

/-- `[a-f0-9]{1,4}`, in either case: what is matched and the text behind it.  What follows a group
in the expression is no digit, so that no shorter match can succeed where this one fails. -/
def matchField (s : List Char) : Option (List Char × List Char) :=
  let field := (s.takeWhile isHexDigit).take 4
  if field = [] then none else some (field, s.drop field.length)

/-- A character that the expression has literally. -/
def matchChar (c : Char) : List Char → Option (List Char)
  | d :: s => if d = c then some s else none
  | [] => none

/-- Two fields with a colon between them. -/
def matchPair (s : List Char) : Option ((List Char × List Char) × List Char) := do
  let (first, s) ← matchField s
  let s ← matchChar ':' s
  let (second, s) ← matchField s
  some ((first, second), s)

/-- An optional pair behind a character. -/
def matchOptional (c : Char) (s : List Char) : Option (List Char × List Char) × List Char :=
  match (matchChar c s).bind matchPair with
  | some (pair, rest) => (some pair, rest)
  | none => (none, s)

/-- The groups of a match, by their names. -/
structure Groups where
  vendor : List Char
  device : List Char
  sub : Option (List Char × List Char)
  geo : Option (List Char × List Char)

/-- `re.match(reg, addr)`; `$` matches also in front of a line feed at the end. -/
def matchAddr (addr : List Char) : Option Groups := do
  let (id, s) ← matchPair addr
  let (sub, s) := matchOptional '/' s
  let (geo, s) := matchOptional '@' s
  if s = [] ∨ s = [Char.ofNat 10] then some ⟨id.1, id.2, sub, geo⟩ else none

/-- The keys of `groupdict()`. -/
def groupNames : List String :=
  ["vendor", "device", "subvendor", "subdevice", "bus", "devfn"]

/-- The two numbers of a part of the dictionary: overwritten if the dictionary has no key of this
name, else those of the part, `None` if it is absent. -/
def partOrUnused (key : String) (part : Option (List Char × List Char)) :
    Option (BitVec 16 × BitVec 16) :=
  if key ∉ groupNames then some (rrDevselUnused, rrDevselUnused)
  else part.map fun (a, b) => (.ofNat 16 (hexValue a), .ofNat 16 (hexValue b))

/-- `parse_addr`, and the structure that `bind` makes of the dictionary; an exception is `none`. -/
def parseAddr (addr : List Char) : Option RrDevsel := do
  let groups ← matchAddr addr
  let (subvendor, subdevice) ← partOrUnused "sub" groups.sub
  let (bus, devfn) ← partOrUnused "geo" groups.geo
  some ⟨.ofNat 16 (hexValue groups.vendor), .ofNat 16 (hexValue groups.device), subvendor,
    subdevice, bus, devfn⟩

/-! ## The driver -/

/-- What identifies a card. -/
structure Card where
  vendor : BitVec 16
  device : BitVec 16
  subsystemVendor : BitVec 16
  subsystemDevice : BitVec 16
  busNumber : BitVec 8
  devfn : BitVec 8
deriving DecidableEq

/-- The table entry that `rr_fill_table` makes, and the test for the bus in `rr_pciprobe`. -/
def devselMatches (devsel : RrDevsel) (card : Card) : Prop :=
  (devsel.vendor = card.vendor ∧ devsel.device = card.device ∧
    (devsel.subvendor ≠ rrDevselUnused →
      devsel.subvendor = card.subsystemVendor ∧ devsel.subdevice = card.subsystemDevice)) ∧
  (devsel.bus ≠ rrDevselUnused →
    devsel.bus.toNat = card.busNumber.toNat ∧ devsel.devfn.toNat = card.devfn.toNat)

/-- `RR_DEVGET`. -/
def rrDevget (card : Card) : RrDevsel :=
  ⟨card.vendor, card.device, card.subsystemVendor, card.subsystemDevice,
    card.busNumber.setWidth 16, card.devfn.setWidth 16⟩

/-- A digit of `%x`. -/
def hexChar (n : ℕ) : Char := if n < 10 then Char.ofNat (48 + n) else Char.ofNat (87 + n)

/-- `%04x` of a number of 16 bits. -/
def hex04 (v : BitVec 16) : List Char :=
  [hexChar (v.toNat / 4096 % 16), hexChar (v.toNat / 256 % 16), hexChar (v.toNat / 16 % 16),
    hexChar (v.toNat % 16)]

/-- The string of `info()`. -/
def info (card : Card) : List Char :=
  let ds := rrDevget card
  hex04 ds.vendor ++ ':' :: hex04 ds.device ++
    '/' :: hex04 ds.subvendor ++ ':' :: hex04 ds.subdevice ++
    '@' :: hex04 ds.bus ++ ':' :: hex04 ds.devfn

end Rawrabbit

end Gn4124Core
