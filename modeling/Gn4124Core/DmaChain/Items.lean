import Gn4124Core.P2lDma.ReadRequests
import Gn4124Core.Rtl.DmaController

/-!
# Chains of items in host memory

The host leaves the items of a DMA chain in its memory, seven words each, and links them by
the addresses in their NEXT fields.  Only the first item is written into the registers of the
DMA controller.  `chainEvents` is what the controller then has to show of the chain: one start
for each item, up to the first that has no other behind it, and one interrupt.
-/

namespace Gn4124Core

/-- What the DMA controller shows to the outside. -/
inductive DmaEvent where
  | start (isP2l : Bool) (carrierAddr : Word) (hostAddr : BitVec 64) (len : Word)
  | doneIrq
  | errorIrq
deriving DecidableEq

/-- The host addresses of the words that a read asks for. -/
def HostRead.addresses (r : HostRead) : List (BitVec 64) :=
  (List.range r.words).map fun j => r.address + BitVec.ofNat 64 (4 * j)

@[simp] theorem HostRead.length_addresses (r : HostRead) : r.addresses.length = r.words := by
  simp [addresses]

namespace DmaItem

variable (item : DmaItem)

/-- The words of an item, in the order in which they lie in host memory. -/
def hostWords : List Word :=
  [item.carrierAddr, item.hostAddrL, item.hostAddrH, item.len, item.nextL, item.nextH, item.attrib]

/-- The host address of the next item. -/
def next : BitVec 64 := item.nextH ++ item.nextL

/-- The start of the item's transfer. -/
def start : DmaEvent := .start item.isP2l item.carrierAddr (item.hostAddrH ++ item.hostAddrL) item.len

variable {item}

@[simp] theorem length_hostWords : item.hostWords.length = 7 := rfl

theorem hostWords_inj {item' : DmaItem} (h : item.hostWords = item'.hostWords) : item = item' := by
  simp only [hostWords, List.cons.injEq, and_true] at h
  obtain ⟨hcarrier, hlow, hhigh, hlen, hnextL, hnextH, hattrib⟩ := h
  cases item
  cases item'
  simp_all

/-- The counter of missing words selects the field of the word that comes next. -/
theorem hostWords_store {m : ℕ} (hm : m < 7) (w : Word) :
    (item.store (BitVec.ofNat 3 (7 - m)) w).hostWords = item.hostWords.set m w := by
  match m, hm with
  | 0, _ | 1, _ | 2, _ | 3, _ | 4, _ | 5, _ | 6, _ => rfl

end DmaItem

/-- What the host's memory holds all along; `none` where it may change. -/
abbrev HostMemory := BitVec 64 → Option Word

variable (mem : HostMemory)

/-- An item lies at the host address `a`. -/
def Holds (a : BitVec 64) (item : DmaItem) : Prop :=
  ∀ j < 7, mem (a + BitVec.ofNat 64 (4 * j)) = item.hostWords[j]?

/-- Every item but the first lies where the item before it says. -/
def Linked : List DmaItem → Prop
  | item :: item' :: rest => Holds mem item.next item' ∧ Linked (item' :: rest)
  | _ => True

/-- The chain ends within the list: at an item that has no other behind it, or that is too
short for a transfer. -/
def Ends (items : List DmaItem) : Prop := ∃ item ∈ items, item.words = 0 ∨ item.more = false

/-- What the controller has to show for a chain. -/
def chainEvents : List DmaItem → List DmaEvent
  | [] => []
  | item :: rest =>
      if item.words = 0 then [.errorIrq]
      else item.start :: if item.more then chainEvents rest else [.doneIrq]

instance decidableHolds (a : BitVec 64) (item : DmaItem) : Decidable (Holds mem a item) :=
  inferInstanceAs (Decidable (∀ j < 7, _))

instance decidableLinked : ∀ items, Decidable (Linked mem items)
  | [] => inferInstanceAs (Decidable True)
  | [_] => inferInstanceAs (Decidable True)
  | item :: item' :: rest =>
      have := decidableLinked (item' :: rest)
      inferInstanceAs (Decidable (Holds mem item.next item' ∧ Linked mem (item' :: rest)))

instance (items : List DmaItem) : Decidable (Ends items) :=
  inferInstanceAs (Decidable (∃ item ∈ items, item.words = 0 ∨ item.more = false))

variable {mem} {item : DmaItem} {rest : List DmaItem}

/-- A chain that goes on behind its first item has a second item, where the first says. -/
theorem Ends.next (hends : Ends (item :: rest)) (hlinked : Linked mem (item :: rest))
    (hwords : item.words ≠ 0) (hmore : item.more = true) :
    ∃ item' rest', rest = item' :: rest' ∧ Holds mem item.next item' ∧
      Linked mem (item' :: rest') ∧ Ends (item' :: rest') := by
  have hrest : Ends rest := by
    obtain ⟨last, hmem, hlast⟩ := hends
    rcases List.mem_cons.mp hmem with rfl | hmem
    · rcases hlast with hzero | hlast
      · exact absurd hzero hwords
      · simp [hmore] at hlast
    · exact ⟨last, hmem, hlast⟩
  cases rest with
  | nil =>
      obtain ⟨_, hmem, -⟩ := hrest
      simp at hmem
  | cons item' rest' => exact ⟨item', rest', rfl, hlinked.1, hlinked.2, hrest⟩

end Gn4124Core
