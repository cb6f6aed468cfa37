import Gn4124Core.Eeprom.TwoWire

/-!
# What passes over the two-wire bus

A write of the device address starts a transaction with the bytes that are in the FIFO.  To it
belong the statuses that are read afterwards, and the bytes that are read from the FIFO, until the
next one starts.
-/

namespace Gn4124Core

open PyLang RegisterBus

namespace Eeprom

structure Transaction where
  sent : List Word
  statuses : List Word
  received : List Word
deriving DecidableEq

/-- The transactions so far, the last one first, and the bytes in the FIFO. -/
structure Observed where
  newest : List Transaction
  pending : List Word
deriving DecidableEq

namespace Observed

variable (o : Observed)

/-- More statuses are read. -/
def addStatuses (vs : List Word) : Observed :=
  { o with newest := o.newest.modifyHead fun x => { x with statuses := x.statuses ++ vs } }

/-- More bytes are read from the FIFO. -/
def addReceived (vs : List Word) : Observed :=
  { o with newest := o.newest.modifyHead fun x => { x with received := x.received ++ vs } }

def step : Access Register Word → Observed
  | .write .twiData v => { o with pending := o.pending ++ [v] }
  | .write .twiAddress _ => ⟨⟨o.pending, [], []⟩ :: o.newest, []⟩
  | .read .twiIrtStatus v => o.addStatuses [v]
  | .read .twiData v => o.addReceived [v]
  | _ => o

theorem addStatuses_nil : o.addStatuses [] = o := by
  obtain ⟨newest, pending⟩ := o
  cases newest <;> simp [addStatuses]

theorem addStatuses_cons (v : Word) (vs : List Word) :
    (o.addStatuses [v]).addStatuses vs = o.addStatuses (v :: vs) := by
  obtain ⟨newest, pending⟩ := o
  cases newest <;> simp [addStatuses]

theorem addReceived_nil : o.addReceived [] = o := by
  obtain ⟨newest, pending⟩ := o
  cases newest <;> simp [addReceived]

theorem addReceived_cons (v : Word) (vs : List Word) :
    (o.addReceived [v]).addReceived vs = o.addReceived (v :: vs) := by
  obtain ⟨newest, pending⟩ := o
  cases newest <;> simp [addReceived]

end Observed

/-- The accesses seen from the bus. -/
def observe (t : TwiTrace) : Observed := t.foldl Observed.step ⟨[], []⟩

/-- The transactions in the order in which they were started. -/
def transactions (t : TwiTrace) : List Transaction := (observe t).newest.reverse

variable {card : Card} {r : Register} {t : TwiTrace} {v : Word}

theorem observe_append (t u : TwiTrace) : observe (t ++ u) = u.foldl Observed.step (observe t) :=
  List.foldl_append

theorem observe_writes : observe (writes r v t) = (observe t).step (.write r v) := by
  rw [writes, observe_append]
  rfl

theorem observe_reads :
    observe (reads card r t) = (observe t).step (.read r (answer card r t)) := by
  rw [reads, observe_append]
  rfl

/-- An access that is not seen from the bus. -/
def Hidden : Access Register Word → Prop
  | .write .twiData _ | .write .twiAddress _ | .read .twiIrtStatus _ | .read .twiData _ => False
  | _ => True

theorem Observed.step_hidden {a : Access Register Word} (h : Hidden a) (o : Observed) :
    o.step a = o := by
  unfold Hidden at h
  unfold Observed.step
  split <;> simp_all

theorem observe_hidden {u : TwiTrace} (h : ∀ a ∈ u, Hidden a) (t : TwiTrace) :
    observe (t ++ u) = observe t := by
  rw [observe_append]
  induction u with
  | nil => rfl
  | cons a u ih =>
      rw [List.foldl_cons, Observed.step_hidden (h a (List.mem_cons_self ..))]
      exact ih fun b hb => h b (List.mem_cons_of_mem _ hb)

theorem observe_fifo (ws : List Word) (t : TwiTrace) :
    observe (t ++ ws.map (.write .twiData)) =
      { observe t with pending := (observe t).pending ++ ws } := by
  rw [observe_append]
  generalize observe t = o
  induction ws generalizing o with
  | nil => simp
  | cons w ws ih =>
      rw [List.map_cons, List.foldl_cons, ih]
      simp [Observed.step]

theorem observe_statuses (vs : List Word) (t : TwiTrace) :
    observe (t ++ vs.map (.read .twiIrtStatus)) = (observe t).addStatuses vs := by
  rw [observe_append]
  generalize observe t = o
  induction vs generalizing o with
  | nil => exact o.addStatuses_nil.symm
  | cons v vs ih =>
      rw [List.map_cons, List.foldl_cons, ih]
      exact o.addStatuses_cons v vs

theorem observe_received (vs : List Word) (t : TwiTrace) :
    observe (t ++ vs.map (.read .twiData)) = (observe t).addReceived vs := by
  rw [observe_append]
  generalize observe t = o
  induction vs generalizing o with
  | nil => exact o.addReceived_nil.symm
  | cons v vs ih =>
      rw [List.map_cons, List.foldl_cons, ih]
      exact o.addReceived_cons v vs

/-! ## Before the first transaction -/

theorem shutOffInit_observe : observe (shutOffInit card t) = observe t := by
  simp only [shutOffInit]
  split_ifs
  · rw [observe_writes, observe_reads]
    rfl
  · rw [observe_reads]
    rfl

theorem shutOffInit_readCount (h : r ≠ .lbCtl) :
    readCount r (shutOffInit card t) = readCount r t := by
  simp only [shutOffInit]
  split_ifs
  · rw [readCount_writes, readCount_reads h.symm]
  · rw [readCount_reads h.symm]

theorem waitIdle_observe : observe (waitIdle card t) = observe t := by
  rw [waitIdle, poll_eq]
  apply observe_hidden
  intro a ha
  obtain ⟨v, -, rfl⟩ := List.mem_map.mp ha
  trivial

theorem waitIdle_readCount (h : r ≠ .twiStatus) :
    readCount r (waitIdle card t) = readCount r t := by
  rw [waitIdle, poll_eq]
  exact readCount_append h.symm _ _

end Eeprom

end Gn4124Core
