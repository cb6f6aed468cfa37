import Gn4124Core.Clocked.Run
import Gn4124Core.Rawrabbit.Lifecycle

/-!
# The driver has one card, and the card that was asked for

Whatever is loaded, plugged, selected and pulled out in whatever order, the driver and the kernel
agree (`Consistent`): on the card, which matches the selector in force; on the BAR areas, which are
those of this card; on the mappings, which are those of its areas and no others; and on whether the
PCI driver is registered.  The functions of the driver keep this one by one, and each of them has
one lemma that says all it does.

For `RR_DEVSEL` this means that it binds the first card on the bus that the selector selects and
that can be enabled, and says whether there is one.
-/

namespace Gn4124Core

open CLang Clocked

namespace Rawrabbit

variable {m : DataModel}

/-! ## The flag -/

/-- `RR_FLAG_REGISTERED` is set. -/
def RrDev.registered (dev : RrDev m) : Bool := dev.flags.getLsbD 0

theorem getLsbD_rrFlagRegistered (i : ℕ) : rrFlagRegistered.getLsbD i = decide (i = 0) := by
  have hone : rrFlagRegistered = BitVec.twoPow 32 0 := by decide
  rw [hone, BitVec.getLsbD_twoPow]
  simp [eq_comm]

theorem and_rrFlagRegistered (flags : BitVec 32) :
    flags &&& rrFlagRegistered ≠ 0 ↔ flags.getLsbD 0 = true := by
  constructor
  · intro hne
    by_contra hclear
    apply hne
    apply BitVec.eq_of_getLsbD_eq
    intro i _
    rw [BitVec.getLsbD_and, getLsbD_rrFlagRegistered]
    by_cases hzero : i = 0
    · subst hzero
      simpa using hclear
    · simp [hzero]
  · intro hset hzero
    have hbit := congrArg (fun w : BitVec 32 => w.getLsbD 0) hzero
    simp only [BitVec.getLsbD_and, getLsbD_rrFlagRegistered, hset] at hbit
    exact absurd hbit (by decide)

theorem irqrequest_bit : rrFlagIrqrequest.getLsbD 0 = false := by decide

theorem irqdisable_bit : rrFlagIrqdisable.getLsbD 0 = false := by decide

/-! ## The table -/

instance (devsel : RrDevsel) (card : Card) : Decidable (devselMatches devsel card) :=
  inferInstanceAs (Decidable ((_ ∧ _ ∧ (_ → _)) ∧ (_ → _)))

theorem setWidth_ne_pciAnyId (v : BitVec 16) : v.setWidth 32 ≠ pciAnyId := by
  intro heq
  have hnat := congrArg BitVec.toNat heq
  have hlt := v.isLt
  rw [BitVec.toNat_setWidth, Nat.mod_eq_of_lt (by omega)] at hnat
  have hany : pciAnyId.toNat = 2 ^ 32 - 1 := by decide
  omega

theorem setWidth_injective {v w : BitVec 16} : v.setWidth 32 = w.setWidth 32 ↔ v = w := by
  refine ⟨fun heq => ?_, fun heq => by rw [heq]⟩
  apply BitVec.eq_of_toNat_eq
  have hnat := congrArg BitVec.toNat heq
  have hv := v.isLt
  have hw := w.isLt
  rwa [BitVec.toNat_setWidth, BitVec.toNat_setWidth, Nat.mod_eq_of_lt (by omega),
    Nat.mod_eq_of_lt (by omega)] at hnat

theorem isId_pciAnyId (value : BitVec 16) : isId pciAnyId value = true := by simp [isId]

theorem isId_setWidth (entry value : BitVec 16) :
    isId (entry.setWidth 32) value = true ↔ entry = value := by
  simp [isId, setWidth_ne_pciAnyId, setWidth_injective]

/-- The cards that the driver is offered. -/
theorem matchesCard_rrFillTable (devsel : RrDevsel) (card : Card) :
    (rrFillTable devsel).matchesCard card = true ↔
      devsel.vendor = card.vendor ∧ devsel.device = card.device ∧
        (devsel.subvendor ≠ rrDevselUnused →
          devsel.subvendor = card.subsystemVendor ∧ devsel.subdevice = card.subsystemDevice) := by
  simp only [PciDeviceId.matchesCard, rrFillTable, Bool.and_eq_true, isId_setWidth, and_assoc]
  refine and_congr_right fun _ => and_congr_right fun _ => ?_
  by_cases hunused : devsel.subvendor = rrDevselUnused
  · simp [hunused, isId_pciAnyId]
  · simp [hunused, isId_setWidth]

/-! ## What the functions of the driver do to the device -/

/-- A probe takes the card. -/
structure Takes (dev : RrDev m) (c : PciCard) (calls : ProbeCalls) : Prop where
  free : dev.pdev = none
  bus : dev.devsel.bus ≠ rrDevselUnused →
    dev.devsel.bus.toNat = c.card.busNumber.toNat ∧ dev.devsel.devfn.toNat = c.card.devfn.toNat
  enabled : calls.pciEnableDevice = .ok ()

/-- A probe takes the card, or it does nothing. -/
theorem rrPciprobe_inv (dev : RrDev m) (c : PciCard) (calls : ProbeCalls) :
    (Takes dev c calls ∧ (rrPciprobe dev c.toPciDev calls).accepted = true ∧
        ∃ flags, (rrPciprobe dev c.toPciDev calls).dev =
          { dev with
            pdev := some c.toPciDev
            areas := .probe c.resource calls.ioremap
            flags := flags } ∧ flags.getLsbD 0 = dev.registered) ∨
      (¬ Takes dev c calls ∧ (rrPciprobe dev c.toPciDev calls).accepted = false ∧
        (rrPciprobe dev c.toPciDev calls).dev = dev ∧
        (rrPciprobe dev c.toPciDev calls).calls = []) := by
  unfold rrPciprobe
  split
  · next hbusy =>
      refine .inr ⟨fun htakes => ?_, rfl, rfl, rfl⟩
      rw [htakes.free] at hbusy
      exact absurd hbusy (by decide)
  · next hfree =>
      have hnone : dev.pdev = none := by simpa using hfree
      split
      · next hbus =>
          exact .inr ⟨fun htakes => hbus.2 (htakes.bus hbus.1).1, rfl, rfl, rfl⟩
      · next hbus =>
          split
          · next hdevfn =>
              exact .inr ⟨fun htakes => hdevfn.2 (htakes.bus hdevfn.1).2, rfl, rfl, rfl⟩
          · next hdevfn =>
              cases henable : calls.pciEnableDevice with
              | error e =>
                  refine .inr ⟨fun htakes => ?_, rfl, rfl, rfl⟩
                  exact absurd (henable.symm.trans htakes.enabled) (by simp)
              | ok u =>
                  have htakes : Takes dev c calls := by
                    refine ⟨hnone, fun hused => ⟨?_, ?_⟩, henable⟩
                    · by_contra hne
                      exact hbus ⟨hused, hne⟩
                    · by_contra hne
                      exact hdevfn ⟨hused, hne⟩
                  left
                  by_cases hirq : 0 < c.toPciDev.irq
                  · cases hrequest : calls.requestIrq with
                    | error e =>
                        simp only [if_pos hirq]
                        exact ⟨htakes, rfl, dev.flags, rfl, rfl⟩
                    | ok _ =>
                        simp only [if_pos hirq]
                        refine ⟨htakes, rfl, dev.flags ||| rrFlagIrqrequest, rfl, ?_⟩
                        rw [BitVec.getLsbD_or, irqrequest_bit, Bool.or_false]
                        rfl
                  · simp only [if_neg hirq]
                    exact ⟨htakes, rfl, dev.flags, rfl, rfl⟩

/-- A remove follows no NULL pointer, and leaves no card. -/
theorem rrPciremove_inv (dev : RrDev m) (pdev : PciDev) :
    ∃ r flags, rrPciremove dev pdev = some r ∧
      r.dev = { dev with pdev := none, areas := .none, flags := flags } ∧
      flags.getLsbD 0 = dev.registered := by
  by_cases hrequest : dev.flags &&& rrFlagIrqrequest = 0
  · refine ⟨⟨{ dev with pdev := none, areas := .none }, [], none⟩, dev.flags, ?_, rfl, rfl⟩
    rw [rrPciremove, if_neg (not_not.mpr hrequest)]
    rfl
  · -- the two interrupt flags are one bit, so the second one is never found set
    have hclear : (dev.flags &&& ~~~rrFlagIrqrequest) &&& rrFlagIrqdisable = 0 :=
      and_not_irqdisable dev.flags
    refine ⟨⟨{ dev with
      pdev := none
      areas := .none
      flags := dev.flags &&& ~~~rrFlagIrqrequest }, [.freeIrq pdev.irq], none⟩,
      dev.flags &&& ~~~rrFlagIrqrequest, ?_, rfl, ?_⟩
    · rw [rrPciremove, if_pos hrequest, rrReenable, if_neg (not_not.mpr hclear)]
      rfl
    · rw [BitVec.getLsbD_and, BitVec.getLsbD_not, irqrequest_bit]
      simp [RrDev.registered]

/-! ## The accounts of the card -/

/-- The BAR areas of the card that the driver has. -/
def resourceOf : Option PciCard → Fin 3 → Option Resource
  | some c => c.resource
  | none => fun _ => none

theorem Areas.eq_none {a : Areas} (h : a.area = fun _ => Option.none) : a = Areas.none := by
  obtain ⟨area, remap, mapped⟩ := a
  have harea : area = fun _ => Option.none := h
  subst harea
  have hremap : remap = fun _ => false := by
    funext i
    by_contra htrue
    obtain ⟨r, hr, -⟩ := mapped i (by simpa using htrue)
    exact absurd hr (by simp)
  subst hremap
  rfl

namespace Loaded

/-- The driver and the kernel agree on the card, its areas and their mappings. -/
structure Accounts (s : Loaded m) : Prop where
  pdev : s.rr.dev.pdev = s.kernel.bound.map PciCard.toPciDev
  area : s.rr.dev.areas.area = resourceOf s.kernel.bound
  mappings : s.kernel.mappings = s.rr.dev.areas.mappings

/-- The module without its card. -/
def unbound (s : Loaded m) (flags : BitVec 32) (lines : ℕ → IrqLine) : Loaded m where
  rr := { s.rr with dev := { s.rr.dev with pdev := none, areas := .none, flags := flags } }
  kernel := { s.kernel with bound := none, mappings := [], lines := lines }

/-- The module with a card, of which it had none. -/
def bind (s : Loaded m) (c : PciCard) (calls : ProbeCalls) (flags : BitVec 32)
    (lines : ℕ → IrqLine) : Loaded m where
  rr := { s.rr with
    dev := { s.rr.dev with
      pdev := some c.toPciDev
      areas := .probe c.resource calls.ioremap
      flags := flags }
    complete := s.rr.complete + 1 }
  kernel := { s.kernel with
    bound := some c
    mappings := s.kernel.mappings ++ (Areas.probe c.resource calls.ioremap).mappings
    lines := lines }

variable {s : Loaded m} {c : PciCard} {flags : BitVec 32} {lines : ℕ → IrqLine}

theorem diff_self (l : List Resource) : l.diff l = [] := by
  induction l with
  | nil => rfl
  | cons r l ih => rw [List.cons_diff_of_mem List.mem_cons_self, List.erase_cons_head, ih]

theorem Accounts.bind (h : s.Accounts) (hfree : s.kernel.bound = none) (c : PciCard)
    (calls : ProbeCalls) : (s.bind c calls flags lines).Accounts := by
  refine ⟨rfl, rfl, ?_⟩
  have harea := h.area
  rw [hfree] at harea
  have hnone : s.kernel.mappings = [] := by
    rw [h.mappings, Areas.eq_none harea]
    rfl
  show s.kernel.mappings ++ _ = _
  rw [hnone, List.nil_append]
  rfl

/-- The card is taken from the driver. -/
theorem Accounts.remove (h : s.Accounts) (c : PciCard) :
    ∃ flags lines, s.remove c = some (s.unbound flags lines) ∧
      flags.getLsbD 0 = s.rr.dev.registered := by
  obtain ⟨r, flags, hremove, hdev, hflags⟩ := rrPciremove_inv s.rr.dev c.toPciDev
  refine ⟨flags, r.calls.foldl IrqCall.apply s.kernel.lines, ?_, hflags⟩
  have hgone : s.kernel.mappings.diff s.rr.dev.areas.mappings = [] := by
    rw [h.mappings]
    exact diff_self _
  simp only [Loaded.remove, hremove, hdev, hgone]
  rfl

theorem Accounts.removeBound (h : s.Accounts) :
    ∃ flags lines, s.removeBound = some (s.unbound flags lines) ∧
      flags.getLsbD 0 = s.rr.dev.registered := by
  unfold Loaded.removeBound
  cases hbound : s.kernel.bound with
  | some c => exact h.remove c
  | none =>
      refine ⟨s.rr.dev.flags, s.kernel.lines, ?_, rfl⟩
      have hpdev := h.pdev
      have harea := h.area
      have hmappings := h.mappings
      rw [hbound] at hpdev harea
      have hareas := Areas.eq_none harea
      rw [hareas] at hmappings
      obtain ⟨⟨⟨devsel, pdev, irqtime, irqcount, areas, flags⟩, idTable, usecount, complete⟩,
        ⟨present, bound, registered, misc, dmabufs, mappings, lines⟩⟩ := s
      obtain rfl : bound = none := hbound
      obtain rfl : pdev = none := hpdev
      obtain rfl : areas = .none := hareas
      obtain rfl : mappings = [] := hmappings
      rfl

theorem Accounts.pciUnregisterDriver (h : s.Accounts) :
    ∃ flags lines, s.pciUnregisterDriver =
        some { s.unbound flags lines with kernel.registered := false } ∧
      flags.getLsbD 0 = s.rr.dev.registered := by
  obtain ⟨flags, lines, hremove, hflags⟩ := h.removeBound
  exact ⟨flags, lines, by rw [Loaded.pciUnregisterDriver, hremove]; rfl, hflags⟩

/-! ### Probes -/

/-- The driver is offered the card and takes it. -/
structure Binds (s : Loaded m) (calls : ProbeCalls) (c : PciCard) : Prop where
  offered : s.rr.idTable.matchesCard c.card = true
  takes : Takes s.rr.dev c calls

theorem probe_of_binds {calls : ProbeCalls} (h : s.Binds calls c) :
    ∃ flags lines, s.probe calls c = s.bind c calls flags lines ∧
      flags.getLsbD 0 = s.rr.dev.registered := by
  rcases rrPciprobe_inv s.rr.dev c calls with ⟨-, haccepted, flags, hdev, hflags⟩ | ⟨hnot, -⟩
  · refine ⟨flags, (rrPciprobe s.rr.dev c.toPciDev calls).calls.foldl IrqCall.apply s.kernel.lines,
      ?_, hflags⟩
    rw [Loaded.probe, if_pos h.offered]
    simp only [haccepted, if_true, hdev]
    rfl
  · exact absurd h.takes hnot

theorem probe_of_not_binds {calls : ProbeCalls} (h : ¬ s.Binds calls c) : s.probe calls c = s := by
  rw [Loaded.probe]
  split
  · next hoffered =>
      rcases rrPciprobe_inv s.rr.dev c calls with ⟨htakes, -⟩ | ⟨-, haccepted, hdev, hcalls⟩
      · exact absurd ⟨hoffered, htakes⟩ h
      · simp only [haccepted, Bool.false_eq_true, if_false, hdev, hcalls, List.foldl_nil]
  · rfl

end Loaded

/-- The PCI core can enable the card. -/
def ProbeCalls.enables (calls : ProbeCalls) : Bool :=
  match calls.pciEnableDevice with
  | .ok _ => true
  | .error _ => false

/-- A card that the selector selects and that can be enabled. -/
def answersTo (devsel : RrDevsel) (calls : RegisterCalls) (c : PciCard) : Bool :=
  decide (devselMatches devsel c.card) && (calls.probe c).enables

namespace Loaded

variable {s : Loaded m} {c : PciCard} {flags : BitVec 32} {lines : ℕ → IrqLine}

theorem binds_iff {calls : ProbeCalls} (hid : s.rr.idTable = rrFillTable s.rr.dev.devsel)
    (hfree : s.rr.dev.pdev = none) :
    s.Binds calls c ↔ devselMatches s.rr.dev.devsel c.card ∧ calls.enables = true := by
  have henables : calls.enables = true ↔ calls.pciEnableDevice = .ok () := by
    unfold ProbeCalls.enables
    cases calls.pciEnableDevice <;> simp
  constructor
  · rintro ⟨hoffered, -, hbus, henabled⟩
    rw [hid] at hoffered
    exact ⟨⟨(matchesCard_rrFillTable _ _).mp hoffered, hbus⟩, henables.mpr henabled⟩
  · rintro ⟨⟨hids, hbus⟩, henabled⟩
    refine ⟨?_, hfree, hbus, henables.mp henabled⟩
    rw [hid]
    exact (matchesCard_rrFillTable _ _).mpr hids

/-- A driver that has a card takes no other one. -/
theorem foldl_probe_bound (calls : RegisterCalls) (hbound : s.rr.dev.pdev ≠ none)
    (cs : List PciCard) : cs.foldl (fun s c => s.probe (calls.probe c) c) s = s := by
  induction cs with
  | nil => rfl
  | cons c cs ih =>
      rw [List.foldl_cons, probe_of_not_binds fun hbinds => hbound hbinds.takes.free, ih]

/-- Of the cards on the bus the driver takes the first one that answers. -/
theorem foldl_probe (calls : RegisterCalls) (hid : s.rr.idTable = rrFillTable s.rr.dev.devsel)
    (hfree : s.rr.dev.pdev = none) (cs : List PciCard) :
    (cs.find? (answersTo s.rr.dev.devsel calls) = none ∧
        cs.foldl (fun s c => s.probe (calls.probe c) c) s = s) ∨
      ∃ c flags lines, cs.find? (answersTo s.rr.dev.devsel calls) = some c ∧
        cs.foldl (fun s c => s.probe (calls.probe c) c) s =
          s.bind c (calls.probe c) flags lines ∧
        flags.getLsbD 0 = s.rr.dev.registered := by
  induction cs with
  | nil => exact .inl ⟨rfl, rfl⟩
  | cons c cs ih =>
      have hbinds : s.Binds (calls.probe c) c ↔
          devselMatches s.rr.dev.devsel c.card ∧ (calls.probe c).enables = true :=
        binds_iff hid hfree
      rw [List.foldl_cons, List.find?_cons]
      cases hanswers : answersTo s.rr.dev.devsel calls c with
      | true =>
          have hanswers' : devselMatches s.rr.dev.devsel c.card ∧ (calls.probe c).enables = true := by
            simpa [answersTo] using hanswers
          obtain ⟨flags, lines, hprobe, hflags⟩ := probe_of_binds (hbinds.mpr hanswers')
          refine .inr ⟨c, flags, lines, rfl, ?_, hflags⟩
          rw [hprobe]
          exact foldl_probe_bound calls (by simp [Loaded.bind]) cs
      | false =>
          have hnot : ¬ s.Binds (calls.probe c) c := by
            rw [hbinds]
            rintro ⟨hmatches, henables⟩
            simp [answersTo, hmatches, henables] at hanswers
          rw [probe_of_not_binds hnot]
          exact ih

/-! ### `rr_fill_table_and_probe` -/

/-- The card that a registration with this selector finds. -/
def found (devsel : RrDevsel) (calls : RegisterCalls) (present : List PciCard) : Option PciCard :=
  match calls.result with
  | .error _ => none
  | .ok _ => present.find? (answersTo devsel calls)

/-- The driver and the kernel agree. -/
structure Consistent (s : Loaded m) : Prop where
  accounts : s.Accounts
  registered : s.kernel.registered = s.rr.dev.registered
  misc : s.kernel.miscRegistered = true
  idTable : s.kernel.registered = true → s.rr.idTable = rrFillTable s.rr.dev.devsel
  bound : ∀ c ∈ s.kernel.bound, s.kernel.registered = true ∧ c ∈ s.kernel.present ∧
    devselMatches s.rr.dev.devsel c.card

/-- What `rr_fill_table_and_probe` leaves behind. -/
structure Refilled (s : Loaded m) (calls : RegisterCalls) (s' : Loaded m) : Prop where
  consistent : s'.Consistent
  devsel : s'.rr.dev.devsel = s.rr.dev.devsel
  usecount : s'.rr.usecount = s.rr.usecount
  present : s'.kernel.present = s.kernel.present
  dmabufs : s'.kernel.dmabufs = s.kernel.dmabufs
  registered : s'.kernel.registered = calls.result.isOk
  bound : s'.kernel.bound = found s.rr.dev.devsel calls s.kernel.present

/-- The driver is not registered any more, and everything else is as it was. -/
structure Released (s s' : Loaded m) : Prop where
  accounts : s'.Accounts
  bound : s'.kernel.bound = none
  registered : s'.kernel.registered = false
  flag : s'.rr.dev.registered = false
  misc : s'.kernel.miscRegistered = s.kernel.miscRegistered
  devsel : s'.rr.dev.devsel = s.rr.dev.devsel
  usecount : s'.rr.usecount = s.rr.usecount
  present : s'.kernel.present = s.kernel.present
  dmabufs : s'.kernel.dmabufs = s.kernel.dmabufs

/-- The driver is unregistered if it was registered. -/
theorem Accounts.unregisterOld (h : s.Accounts)
    (hregistered : s.kernel.registered = s.rr.dev.registered)
    (hbound : s.kernel.registered = false → s.kernel.bound = none) :
    ∃ s', s.unregisterOld = some s' ∧ s.Released s' := by
  unfold Loaded.unregisterOld
  split
  · obtain ⟨flags, lines, hunregister, -⟩ := h.pciUnregisterDriver
    rw [hunregister]
    refine ⟨_, rfl, ⟨⟨rfl, rfl, rfl⟩, rfl, rfl, ?_, rfl, rfl, rfl, rfl, rfl⟩⟩
    show (flags &&& ~~~rrFlagRegistered).getLsbD 0 = false
    simp [getLsbD_rrFlagRegistered]
  · next hflag =>
      have hclear : s.rr.dev.registered = false := by
        rw [and_rrFlagRegistered] at hflag
        simpa [RrDev.registered] using hflag
      have hfalse := hregistered.trans hclear
      exact ⟨s, rfl, ⟨h, hbound hfalse, hfalse, hclear, rfl, rfl, rfl, rfl, rfl⟩⟩

/-- A registration that succeeds: the driver has the card that was found, if any. -/
theorem pciRegisterDriver_ok {calls : RegisterCalls} {u : Unit} (hresult : calls.result = .ok u)
    (hid : s.rr.idTable = rrFillTable s.rr.dev.devsel) (hfree : s.rr.dev.pdev = none) :
    (found s.rr.dev.devsel calls s.kernel.present = none ∧
        s.pciRegisterDriver calls = ({ s with kernel.registered := true }, .ok ())) ∨
      ∃ c flags lines, found s.rr.dev.devsel calls s.kernel.present = some c ∧
        s.pciRegisterDriver calls =
          (({ s with kernel.registered := true } : Loaded m).bind c (calls.probe c) flags lines,
            .ok ()) := by
  rw [found, hresult, pciRegisterDriver, hresult]
  rcases foldl_probe (s := { s with kernel.registered := true }) calls hid hfree s.kernel.present
    with ⟨hfind, hfold⟩ | ⟨c, flags, lines, hfind, hfold, -⟩
  · exact .inl ⟨hfind, by rw [hfold]⟩
  · exact .inr ⟨c, flags, lines, hfind, by rw [hfold]⟩

theorem found_mem {devsel : RrDevsel} {calls : RegisterCalls} {present : List PciCard}
    (h : found devsel calls present = some c) : c ∈ present ∧ devselMatches devsel c.card := by
  unfold found at h
  split at h
  · cases h
  · have hanswers := List.find?_some h
    rw [answersTo, Bool.and_eq_true, decide_eq_true_eq] at hanswers
    exact ⟨List.mem_of_find?_eq_some h, hanswers.1⟩

theorem flag_set (flags : BitVec 32) : (flags ||| rrFlagRegistered).getLsbD 0 = true := by
  simp [getLsbD_rrFlagRegistered]

/-- The driver is registered, and probed with the cards on the bus. -/
theorem Released.registerNew {s₀ : Loaded m} (h : s₀.Released s)
    (hmisc : s₀.kernel.miscRegistered = true) (calls : RegisterCalls) :
    s₀.Refilled calls (s.registerNew calls).1 ∧
      (s.registerNew calls).2 =
        calls.result.map fun _ => (found s₀.rr.dev.devsel calls s₀.kernel.present).isSome := by
  have hfree : s.rr.dev.pdev = none := by
    rw [h.accounts.pdev, h.bound]
    rfl
  have hfound : found s₀.rr.dev.devsel calls s₀.kernel.present =
      found s.rr.dev.devsel calls s.kernel.present := by rw [h.devsel, h.present]
  -- the driver as it is registered, before the first probe
  have haccounts : ∀ registered, Accounts
      { s with
        rr.idTable := rrFillTable s.rr.dev.devsel
        rr.complete := 0
        kernel.registered := registered } :=
    fun _ => ⟨h.accounts.pdev, h.accounts.area, h.accounts.mappings⟩
  rw [hfound]
  cases hresult : calls.result with
  | error e =>
      have hregister : s.registerNew calls =
          ({ s with rr.idTable := rrFillTable s.rr.dev.devsel, rr.complete := 0 }, .error e) := by
        rw [Loaded.registerNew, pciRegisterDriver, hresult]
      have hnone : found s.rr.dev.devsel calls s.kernel.present = none := by rw [found, hresult]
      rw [hregister]
      refine ⟨⟨⟨haccounts s.kernel.registered, h.registered.trans h.flag.symm, h.misc.trans hmisc,
        fun _ => rfl, ?_⟩, h.devsel, h.usecount, h.present, h.dmabufs, ?_, ?_⟩, rfl⟩
      · intro c hc
        rw [h.bound] at hc
        simp at hc
      · rw [hresult]
        exact h.registered
      · rw [hfound, hnone]
        exact h.bound
  | ok u =>
      rcases pciRegisterDriver_ok
        (s := { s with rr.idTable := rrFillTable s.rr.dev.devsel, rr.complete := 0 }) hresult rfl hfree
        with ⟨hnone, hregister⟩ | ⟨c, flags, lines, hsome, hregister⟩
      · rw [hnone, Loaded.registerNew, hregister]
        have hnow := haccounts true
        refine ⟨⟨⟨⟨hnow.pdev, hnow.area, hnow.mappings⟩, (flag_set _).symm, h.misc.trans hmisc,
          fun _ => rfl, ?_⟩, h.devsel, h.usecount, h.present, h.dmabufs, ?_, ?_⟩, rfl⟩
        · intro c hc
          have hbound : s.kernel.bound = some c := hc
          rw [h.bound] at hbound
          cases hbound
        · rw [hresult]
          rfl
        · rw [hfound, hnone]
          exact h.bound
      · rw [hsome, Loaded.registerNew, hregister]
        obtain ⟨hmem, hmatches⟩ := found_mem hsome
        have hbind : (Loaded.bind _ c (calls.probe c) flags lines).Accounts :=
          (haccounts true).bind h.bound c (calls.probe c)
        refine ⟨⟨⟨⟨hbind.pdev, hbind.area, hbind.mappings⟩, (flag_set _).symm, h.misc.trans hmisc,
          fun _ => rfl, ?_⟩, h.devsel, h.usecount, h.present, h.dmabufs, ?_, ?_⟩, rfl⟩
        · intro c' hc'
          obtain rfl : c = c' := Option.some.inj hc'
          exact ⟨rfl, hmem, hmatches⟩
        · rw [hresult]
          rfl
        · rw [hfound, hsome]
          rfl

/-- **`rr_fill_table_and_probe`.** -/
theorem Accounts.fillTableAndProbe (h : s.Accounts)
    (hregistered : s.kernel.registered = s.rr.dev.registered)
    (hbound : s.kernel.registered = false → s.kernel.bound = none)
    (hmisc : s.kernel.miscRegistered = true) (calls : RegisterCalls) :
    ∃ s', s.rrFillTableAndProbe calls =
        some (s', calls.result.map fun _ =>
          (found s.rr.dev.devsel calls s.kernel.present).isSome) ∧ s.Refilled calls s' := by
  obtain ⟨s₁, hold, hreleased⟩ := h.unregisterOld hregistered hbound
  obtain ⟨hrefilled, hret⟩ := hreleased.registerNew hmisc calls
  refine ⟨(s₁.registerNew calls).1, ?_, hrefilled⟩
  rw [rrFillTableAndProbe, hold, ← hret]
  rfl

end Loaded

/-! ## Events -/

/-- What the kernel has of the driver while the module is not loaded. -/
structure Kernel.Clear (k : Kernel) : Prop where
  bound : k.bound = none
  registered : k.registered = false
  misc : k.miscRegistered = false
  mappings : k.mappings = []

namespace Loaded

variable {s : Loaded m} {c : PciCard}

theorem Consistent.unregistered_bound (h : s.Consistent) (hregistered : s.kernel.registered = false) :
    s.kernel.bound = none := by
  cases hbound : s.kernel.bound with
  | none => rfl
  | some c =>
      have htrue := (h.bound c (by rw [hbound]; rfl)).1
      exact absurd (hregistered.symm.trans htrue) Bool.false_ne_true

/-- What `RR_DEVSEL` answers to the only user of the device. -/
def devselResult (devsel : RrDevsel) (calls : RegisterCalls) (present : List PciCard) :
    Except Errno Unit :=
  match calls.result with
  | .error e => .error e
  | .ok _ => if (found devsel calls present).isSome then .ok () else .error .enodev

/-- `RR_DEVSEL` when nobody else uses the device. -/
theorem Consistent.devsel (h : s.Consistent) (halone : s.rr.usecount ≤ 1) (devsel : RrDevsel)
    (calls : RegisterCalls) :
    ∃ s', s.rrDevselIoctl devsel calls =
        some (s', devselResult devsel calls s.kernel.present) ∧
      Refilled { s with rr.dev.devsel := devsel } calls s' := by
  have haccounts : Accounts { s with rr.dev.devsel := devsel } :=
    ⟨h.accounts.pdev, h.accounts.area, h.accounts.mappings⟩
  obtain ⟨s', hfill, hrefilled⟩ := haccounts.fillTableAndProbe h.registered
    h.unregistered_bound h.misc calls
  refine ⟨s', ?_, hrefilled⟩
  rw [rrDevselIoctl, if_neg (not_lt.mpr halone), hfill, devselResult]
  cases calls.result <;> rfl

/-- `RR_DEVSEL` when somebody else uses the device. -/
theorem rrDevselIoctl_busy (hbusy : 1 < s.rr.usecount) (devsel : RrDevsel)
    (calls : RegisterCalls) : s.rrDevselIoctl devsel calls = some (s, .error .ebusy) := by
  rw [Loaded.rrDevselIoctl, if_pos hbusy]

/-- A card is plugged in. -/
theorem Consistent.plug (h : s.Consistent) (calls : ProbeCalls) (c : PciCard) :
    Consistent
      (if s.kernel.registered then
        ({ s with kernel.present := s.kernel.present ++ [c] } : Loaded m).probe calls c
      else { s with kernel.present := s.kernel.present ++ [c] }) := by
  have hplugged : Consistent { s with kernel.present := s.kernel.present ++ [c] } := by
    refine ⟨⟨h.accounts.pdev, h.accounts.area, h.accounts.mappings⟩, h.registered, h.misc,
      h.idTable, fun c' hc' => ?_⟩
    obtain ⟨hregistered, hmem, hmatches⟩ := h.bound c' hc'
    exact ⟨hregistered, List.mem_append_left [c] hmem, hmatches⟩
  cases hregistered : s.kernel.registered with
  | false => exact hplugged
  | true =>
      rw [if_pos rfl]
      by_cases hbinds : Binds { s with kernel.present := s.kernel.present ++ [c] } calls c
      · obtain ⟨flags, lines, hprobe, hflags⟩ := probe_of_binds hbinds
        have hfree : s.kernel.bound = none := by
          have hpdev := hbinds.takes.free.symm.trans h.accounts.pdev
          exact Option.map_eq_none_iff.mp hpdev.symm
        have hmatches := ((binds_iff (hplugged.idTable hregistered) hbinds.takes.free).mp hbinds).1
        rw [hprobe]
        refine ⟨hplugged.accounts.bind hfree c calls, h.registered.trans hflags.symm, h.misc,
          h.idTable, fun c' hc' => ?_⟩
        obtain rfl : c = c' := Option.some.inj hc'
        exact ⟨hregistered, List.mem_append_right _ List.mem_cons_self, hmatches⟩
      · rw [probe_of_not_binds hbinds]
        exact hplugged

/-- A card is pulled out. -/
theorem Consistent.unplug (h : s.Consistent) (c : PciCard) :
    ∃ s', (if s.kernel.bound = some c then s.remove c else some s) = some s' ∧
      Consistent { s' with kernel.present := s'.kernel.present.erase c } ∧
      s'.kernel.dmabufs = s.kernel.dmabufs := by
  split
  · obtain ⟨flags, lines, hremove, hflags⟩ := h.accounts.remove c
    refine ⟨_, hremove, ⟨⟨rfl, rfl, rfl⟩, h.registered.trans hflags.symm, h.misc, h.idTable,
      fun c' hc' => ?_⟩, rfl⟩
    cases hc'
  · next hother =>
      refine ⟨s, rfl, ⟨⟨h.accounts.pdev, h.accounts.area, h.accounts.mappings⟩, h.registered, h.misc,
        h.idTable, fun c' hc' => ?_⟩, rfl⟩
      obtain ⟨hregistered, hmem, hmatches⟩ := h.bound c' hc'
      refine ⟨hregistered, (List.mem_erase_of_ne ?_).mpr hmem, hmatches⟩
      rintro rfl
      exact hother hc'

/-- Whatever the interrupt changes, it is not the card nor the registration. -/
theorem Consistent.interrupt (h : s.Consistent) {dev : RrDev m} (lines : ℕ → IrqLine)
    (hdevsel : dev.devsel = s.rr.dev.devsel) (hpdev : dev.pdev = s.rr.dev.pdev)
    (hareas : dev.areas = s.rr.dev.areas) (hflag : dev.registered = s.rr.dev.registered) :
    Consistent { s with rr.dev := dev, kernel.lines := lines } := by
  refine ⟨⟨hpdev.trans h.accounts.pdev, ?_, ?_⟩, h.registered.trans hflag.symm, h.misc, ?_, ?_⟩
  · show dev.areas.area = _
    rw [hareas]
    exact h.accounts.area
  · show _ = dev.areas.mappings
    rw [hareas]
    exact h.accounts.mappings
  · show _ → _ = rrFillTable dev.devsel
    rw [hdevsel]
    exact h.idTable
  · show ∀ c ∈ s.kernel.bound, _ ∧ _ ∧ devselMatches dev.devsel c.card
    rw [hdevsel]
    exact h.bound

end Loaded

namespace RrSystem

/-- The driver and the kernel agree, whether the module is loaded or not. -/
def Consistent (s : RrSystem m) : Prop :=
  match s.rr with
  | some rr => Loaded.Consistent ⟨rr, s.kernel⟩
  | none => s.kernel.Clear

theorem consistent_loaded {rr : RrModule m} {kernel : Kernel}
    (h : Loaded.Consistent ⟨rr, kernel⟩) : Consistent ⟨some rr, kernel⟩ := h

theorem consistent_unloaded {kernel : Kernel} (h : kernel.Clear) :
    Consistent (⟨none, kernel⟩ : RrSystem m) := h

theorem rrExit_consistent {s : Loaded m} (h : s.Consistent) :
    ∃ s', s.rrExit = some s' ∧ s'.Consistent ∧ s'.rr = none ∧
      s'.kernel.dmabufs = s.kernel.dmabufs - 1 := by
  obtain ⟨flags, lines, hunregister, -⟩ := h.accounts.pciUnregisterDriver
  exact ⟨_, by rw [Loaded.rrExit, hunregister]; rfl, consistent_unloaded ⟨rfl, rfl, rfl, rfl⟩, rfl, rfl⟩

/-- `rr_init`: the module is loaded unless a call fails. -/
theorem rrInit_consistent {kernel : Kernel} (h : kernel.Clear) (vendor device : BitVec 32)
    (calls : InitCalls) :
    ∃ s', rrInit m vendor device calls kernel = some s' ∧ s'.Consistent ∧
      s'.kernel.dmabufs = kernel.dmabufs + (if calls.vmalloc then 1 else 0) ∧
      s'.rr.isSome =
        (calls.vmalloc && (calls.miscRegister.isOk && calls.pciRegister.result.isOk)) := by
  unfold rrInit
  cases calls.vmalloc with
  | false => exact ⟨_, rfl, consistent_unloaded h, rfl, rfl⟩
  | true =>
      cases calls.miscRegister with
      | error e =>
          exact ⟨_, rfl, consistent_unloaded ⟨h.bound, h.registered, h.misc, h.mappings⟩, rfl, rfl⟩
      | ok u =>
          have haccounts : Loaded.Accounts ⟨rrStatic m vendor device,
              { kernel with miscRegistered := true, dmabufs := kernel.dmabufs + 1 }⟩ := by
            refine ⟨?_, ?_, h.mappings⟩
            · show none = kernel.bound.map PciCard.toPciDev
              rw [h.bound]
              rfl
            · show _ = resourceOf kernel.bound
              rw [h.bound]
              rfl
          have hflag : (rrStatic m vendor device).dev.registered = false := by
            simp [rrStatic, RrDev.registered]
          obtain ⟨s', hfill, hrefilled⟩ := haccounts.fillTableAndProbe
            (h.registered.trans hflag.symm) (fun _ => h.bound) rfl calls.pciRegister
          simp only [if_true, hfill, Option.map_some]
          cases hresult : calls.pciRegister.result with
          | error e =>
              have hfound : s'.kernel.bound = none := by
                rw [hrefilled.bound, Loaded.found, hresult]
              have hregistered : s'.kernel.registered = false := by
                rw [hrefilled.registered, hresult]
                rfl
              have harea := hrefilled.consistent.accounts.area
              rw [hfound] at harea
              have hmappings : s'.kernel.mappings = [] := by
                rw [hrefilled.consistent.accounts.mappings, Areas.eq_none harea]
                rfl
              exact ⟨_, rfl, consistent_unloaded ⟨hfound, hregistered, rfl, hmappings⟩,
                hrefilled.dmabufs, rfl⟩
          | ok u =>
              exact ⟨_, rfl, consistent_loaded hrefilled.consistent, hrefilled.dmabufs, rfl⟩

/-- An event that is handled while the module is loaded. -/
theorem handleLoaded_consistent {s : Loaded m} (h : s.Consistent) (e : RrEvent m) :
    (∃ s', handleLoaded s e = some s' ∧ s'.Consistent ∧
        (s'.rr.isSome = true ∧ s'.kernel.dmabufs = s.kernel.dmabufs ∨
          s'.rr.isSome = false ∧ s'.kernel.dmabufs = s.kernel.dmabufs - 1)) ∨
      handleLoaded s e = none ∧ Crashes ⟨some s.rr, s.kernel⟩ e := by
  cases e with
  | insmod vendor device calls =>
      exact .inl ⟨_, rfl, consistent_loaded h, .inl ⟨rfl, rfl⟩⟩
  | rmmod =>
      obtain ⟨s', hexit, hconsistent, hrr, hdmabufs⟩ := rrExit_consistent h
      exact .inl ⟨s', hexit, hconsistent, .inr ⟨by rw [hrr]; rfl, hdmabufs⟩⟩
  | rrOpen =>
      refine .inl ⟨_, rfl, consistent_loaded ?_, .inl ⟨rfl, rfl⟩⟩
      exact ⟨⟨h.accounts.pdev, h.accounts.area, h.accounts.mappings⟩, h.registered, h.misc,
        h.idTable, h.bound⟩
  | rrRelease =>
      refine .inl ⟨_, rfl, consistent_loaded ?_, .inl ⟨rfl, rfl⟩⟩
      exact ⟨⟨h.accounts.pdev, h.accounts.area, h.accounts.mappings⟩, h.registered, h.misc,
        h.idTable, h.bound⟩
  | rrDevsel devsel calls =>
      left
      rw [handleLoaded]
      split
      · exact ⟨_, rfl, consistent_loaded h, .inl ⟨rfl, rfl⟩⟩
      · by_cases halone : s.rr.usecount ≤ 1
        · obtain ⟨s', hdevsel, hrefilled⟩ := h.devsel halone devsel calls
          rw [hdevsel]
          exact ⟨_, rfl, consistent_loaded hrefilled.consistent, .inl ⟨rfl, hrefilled.dmabufs⟩⟩
        · rw [Loaded.rrDevselIoctl_busy (not_le.mp halone)]
          exact ⟨_, rfl, consistent_loaded h, .inl ⟨rfl, rfl⟩⟩
  | plug c calls =>
      left
      rw [handleLoaded]
      split
      · exact ⟨_, rfl, consistent_loaded h, .inl ⟨rfl, rfl⟩⟩
      · refine ⟨_, rfl, consistent_loaded (h.plug calls c), .inl ⟨rfl, ?_⟩⟩
        split
        · unfold Loaded.probe
          split <;> rfl
        · rfl
  | unplug c =>
      obtain ⟨s', hremove, hconsistent, hdmabufs⟩ := h.unplug c
      left
      rw [handleLoaded]
      rw [hremove]
      exact ⟨_, rfl, consistent_loaded hconsistent, .inl ⟨rfl, hdmabufs⟩⟩
  | interrupt irq now =>
      rw [handleLoaded]
      split
      · next hstrays => exact .inr ⟨rfl, hstrays⟩
      · left
        split
        · refine ⟨_, rfl, consistent_loaded (h.interrupt _ rfl rfl rfl ?_), .inl ⟨rfl, rfl⟩⟩
          show (s.rr.dev.flags ||| rrFlagIrqdisable).getLsbD 0 = _
          rw [BitVec.getLsbD_or, irqdisable_bit, Bool.or_false]
          rfl
        · exact ⟨_, rfl, consistent_loaded h, .inl ⟨rfl, rfl⟩⟩
  | irqena tv =>
      rw [handleLoaded, rrIrqena]
      split
      · exact .inl ⟨_, rfl, consistent_loaded (h.interrupt _ rfl rfl rfl rfl), .inl ⟨rfl, rfl⟩⟩
      · next hflag =>
        cases hpdev : s.rr.dev.pdev with
        | none => exact .inr ⟨rfl, s.rr, rfl, hflag, hpdev⟩
        | some pdev =>
            refine .inl ⟨_, rfl, consistent_loaded (h.interrupt _ rfl hpdev.symm rfl ?_),
              .inl ⟨rfl, rfl⟩⟩
            show (s.rr.dev.flags &&& ~~~rrFlagIrqdisable).getLsbD 0 = _
            rw [BitVec.getLsbD_and, BitVec.getLsbD_not, irqdisable_bit]
            simp [RrDev.registered]

/-- The buffer of a call of `rr_init` that fails behind the allocation. -/
def leaked (s : RrSystem m) : RrEvent m → List InitCalls
  | .insmod _ _ calls =>
      if s.rr.isNone && calls.vmalloc && !(calls.miscRegister.isOk && calls.pciRegister.result.isOk)
      then [calls] else []
  | _ => []

/-- The buffers of the driver that is loaded. -/
def held (s : RrSystem m) : ℕ := s.rr.isSome.toNat

/-- An event that is handled while the module is not loaded. -/
theorem handleUnloaded_consistent {kernel : Kernel} (h : kernel.Clear) (e : RrEvent m) :
    (∃ s', handleUnloaded kernel e = some s' ∧ s'.Consistent ∧
        s'.kernel.dmabufs =
          kernel.dmabufs + (leaked (⟨none, kernel⟩ : RrSystem m) e).length + s'.held) ∨
      handleUnloaded kernel e = none ∧ Crashes (⟨none, kernel⟩ : RrSystem m) e := by
  cases e with
  | insmod vendor device calls =>
      left
      obtain ⟨s', hinit, hconsistent, hdmabufs, hloaded⟩ :=
        rrInit_consistent (m := m) h vendor device calls
      refine ⟨s', hinit, hconsistent, ?_⟩
      rw [hdmabufs, held, hloaded, leaked]
      cases calls.vmalloc with
      | false => rfl
      | true => cases calls.miscRegister.isOk && calls.pciRegister.result.isOk <;> rfl
  | plug c calls =>
      refine .inl ⟨_, rfl, consistent_unloaded ?_, ?_⟩
      · split
        · exact h
        · exact ⟨h.bound, h.registered, h.misc, h.mappings⟩
      · show (if c ∈ kernel.present then kernel else _).dmabufs = kernel.dmabufs
        split <;> rfl
  | unplug c =>
      exact .inl ⟨_, rfl, consistent_unloaded ⟨h.bound, h.registered, h.misc, h.mappings⟩, rfl⟩
  | interrupt irq now =>
      rw [handleUnloaded]
      split
      · next hstrays => exact .inr ⟨rfl, hstrays⟩
      · exact .inl ⟨_, rfl, consistent_unloaded h, rfl⟩
  | rmmod | rrOpen | rrRelease | rrDevsel _ _ | irqena _ =>
      exact .inl ⟨_, rfl, consistent_unloaded h, rfl⟩

/-- **One event.**  It is handled, or it crashes the kernel. -/
theorem Consistent.handle {s : RrSystem m} (h : s.Consistent) (e : RrEvent m) :
    (∃ s', s.handle e = some s' ∧ s'.Consistent) ∨ s.handle e = none ∧ s.Crashes e := by
  obtain ⟨rr, kernel⟩ := s
  cases rr with
  | none =>
      rcases handleUnloaded_consistent h e with ⟨s', hs', hconsistent, -⟩ | hcrash
      · exact .inl ⟨s', hs', hconsistent⟩
      · exact .inr hcrash
  | some rr =>
      rcases handleLoaded_consistent (s := ⟨rr, kernel⟩) h e with ⟨s', hs', hconsistent, -⟩ | hcrash
      · exact .inl ⟨s', hs', hconsistent⟩
      · exact .inr hcrash

theorem handle_of_crashes {s : RrSystem m} {e : RrEvent m} (h : s.Crashes e) : s.handle e = none := by
  obtain ⟨rr, kernel⟩ := s
  cases e with
  | irqena tv =>
      obtain ⟨rr, rfl, hflag, hpdev⟩ := h
      show (rrIrqena rr.dev tv).map _ = none
      rw [rrIrqena, if_neg hflag, hpdev]
      rfl
  | interrupt irq now =>
      have hstrays : kernel.Strays irq := h
      cases rr with
      | none => exact if_pos hstrays
      | some rr => exact if_pos hstrays
  | _ => exact h.elim

theorem step_of_handle {s s' : RrSystem m} {e : RrEvent m} (h : s.handle e = some s') :
    s.step e = s' := by
  rw [RrSystem.step, h]
  rfl

theorem Consistent.step {s : RrSystem m} (h : s.Consistent) (e : RrEvent m) :
    (s.step e).Consistent := by
  rcases h.handle e with ⟨s', hs', hconsistent⟩ | ⟨hnull, -⟩
  · rwa [step_of_handle hs']
  · rw [RrSystem.step, hnull]
    exact h

def cardAt (bus : BitVec 8) : PciCard :=
  have hbus := bus.isLt
  ⟨⟨0x10dc#16, 0x18d#16, 0x10dc#16, 0x18d#16, bus, 0#8⟩, 16,
    fun i => if i.val = 0 then
      some ⟨0x10000 + 0x1000 * bus.toNat, 0x10fff + 0x1000 * bus.toNat, true, false, by omega,
        by omega, by omega⟩ else none⟩

def firstCard : PciCard := cardAt 1#8

def secondCard : PciCard := cardAt 2#8

def twoCards : Kernel :=
  ⟨[firstCard, secondCard], none, false, false, 0, [], fun _ => ⟨0, 0⟩, fun _ => 0⟩

def probeWorks : ProbeCalls := ⟨.ok (), .ok (), fun _ => true⟩

def registerWorks : RegisterCalls := ⟨.ok (), fun _ => probeWorks⟩

def secondDevsel : RrDevsel := ⟨0x10dc#16, 0x18d#16, rrDevselUnused, 0#16, 2#16, 0#16⟩

theorem twoCards_clear : twoCards.Clear := ⟨rfl, rfl, rfl, rfl⟩

/-- One call of `rr_init` fails, the next one works; the user then asks for the other card, which
is pulled out. -/
def cardEvents : List (RrEvent .lp64) :=
  [.insmod 0x10dc#32 0x18d#32 ⟨true, .error .ebusy, registerWorks⟩,
    .insmod 0x10dc#32 0x18d#32 ⟨true, .ok (), registerWorks⟩, .rrOpen,
    .rrDevsel secondDevsel registerWorks, .unplug secondCard, .rrRelease, .rmmod]

/-- Behind `RR_IRQENA` the handler is not given back, and the next interrupt finds no code. -/
def strayEvents : List (RrEvent .lp64) :=
  let now : Timespec .lp64 := ⟨0, 0, Nat.two_pow_pos _, nsecPerSec_pos⟩
  [.insmod 0x10dc#32 0x18d#32 ⟨true, .ok (), registerWorks⟩, .interrupt 16 now, .irqena now, .rmmod]

example : (run step (⟨none, twoCards⟩ : RrSystem .lp64) strayEvents).kernel.Strays 16 := by
  decide +kernel

/-! ## `RR_DEVSEL` -/

/-- What `RR_DEVSEL` does to a module that is loaded. -/
structure Selects (s : Loaded m) (devsel : RrDevsel) (calls : RegisterCalls) (s' : Loaded m)
    (ret : Except Errno Unit) : Prop where
  /-- With another user the selector, the driver and the card stay. -/
  busy : 1 < s.rr.usecount → ret = .error .ebusy ∧ s' = s
  /-- Otherwise the first card that answers is the card of the driver, and no other one is. -/
  bound : s.rr.usecount ≤ 1 → s'.kernel.bound = Loaded.found devsel calls s.kernel.present
  pdev : s.rr.usecount ≤ 1 →
    s'.rr.dev.pdev = (Loaded.found devsel calls s.kernel.present).map PciCard.toPciDev
  area : s.rr.usecount ≤ 1 →
    s'.rr.dev.areas.area = resourceOf (Loaded.found devsel calls s.kernel.present)
  /-- The old mappings are gone. -/
  mappings : s.rr.usecount ≤ 1 → s'.kernel.mappings = s'.rr.dev.areas.mappings
  registered : s.rr.usecount ≤ 1 → s'.kernel.registered = calls.result.isOk
  ret : s.rr.usecount ≤ 1 → ret = Loaded.devselResult devsel calls s.kernel.present

theorem selects_of_consistent {s : Loaded m} (h : s.Consistent) (devsel : RrDevsel)
    (calls : RegisterCalls) :
    ∃ s' ret, s.rrDevselIoctl devsel calls = some (s', ret) ∧ Selects s devsel calls s' ret := by
  by_cases halone : s.rr.usecount ≤ 1
  · obtain ⟨s', hdevsel, hrefilled⟩ := h.devsel halone devsel calls
    have hbound : s'.kernel.bound = Loaded.found devsel calls s.kernel.present := hrefilled.bound
    have hpdev := hrefilled.consistent.accounts.pdev
    have harea := hrefilled.consistent.accounts.area
    rw [hbound] at hpdev harea
    exact ⟨s', _, hdevsel, ⟨fun hbusy => absurd halone (not_le.mpr hbusy), fun _ => hbound,
      fun _ => hpdev, fun _ => harea, fun _ => hrefilled.consistent.accounts.mappings,
      fun _ => hrefilled.registered, fun _ => rfl⟩⟩
  · have hbusy : 1 < s.rr.usecount := not_le.mp halone
    exact ⟨s, _, Loaded.rrDevselIoctl_busy hbusy devsel calls, ⟨fun _ => ⟨rfl, rfl⟩,
      fun hone => absurd hone halone, fun hone => absurd hone halone,
      fun hone => absurd hone halone, fun hone => absurd hone halone,
      fun hone => absurd hone halone, fun hone => absurd hone halone⟩⟩

/-- **`RR_DEVSEL`.**  After any events, a user who is alone gets the first card on the bus that the
selector selects and that can be enabled, with its BAR areas, whatever card the driver had before,
and is told whether there is one; if the PCI driver cannot be registered again, this error is
returned, and there is no card.  A user who is not alone changes nothing. -/
theorem devsel_binds_first {kernel : Kernel} (h : kernel.Clear) (es : List (RrEvent m))
    {s : Loaded m} (hs : run step (⟨none, kernel⟩ : RrSystem m) es = ⟨some s.rr, s.kernel⟩)
    (devsel : RrDevsel) (calls : RegisterCalls) :
    ∃ s' ret, s.rrDevselIoctl devsel calls = some (s', ret) ∧ Selects s devsel calls s' ret := by
  have hkeeps : ∀ (s : RrSystem m) e, s.Consistent → (s.step e).Consistent :=
    fun s e hs => hs.step e
  have hconsistent := stable_run hkeeps (consistent_unloaded h) es
  rw [hs] at hconsistent
  exact selects_of_consistent hconsistent devsel calls

/-- The module that one user has opened. -/
def opened : Loaded .lp64 :=
  let s := run step (⟨none, twoCards⟩ : RrSystem .lp64) (cardEvents.take 3)
  ⟨s.rr.getD (rrStatic .lp64 0#32 0#32), s.kernel⟩

theorem opened_selects_second :
    ∃ s' ret, opened.rrDevselIoctl secondDevsel registerWorks = some (s', ret) ∧
      Selects opened secondDevsel registerWorks s' ret :=
  devsel_binds_first twoCards_clear (cardEvents.take 3) rfl secondDevsel registerWorks

example : Loaded.found secondDevsel registerWorks opened.kernel.present = some secondCard := by decide

/-! ## The DMA buffers -/

/-- What an event does to the number of buffers. -/
theorem Consistent.dmabufs_step {s : RrSystem m} (h : s.Consistent) {others : ℕ}
    (hothers : s.kernel.dmabufs = others + s.held) (e : RrEvent m) :
    (s.step e).kernel.dmabufs = others + (leaked s e).length + (s.step e).held := by
  rcases h.handle e with ⟨s', hs', -⟩ | ⟨hnone, hcrash⟩
  · rw [step_of_handle hs']
    obtain ⟨rr, kernel⟩ := s
    cases rr with
    | none =>
        have hsame : kernel.dmabufs = others := hothers
        rcases handleUnloaded_consistent (m := m) h e with ⟨s'', hs'', -, hdmabufs⟩ | ⟨hnone, -⟩
        · obtain rfl : s' = s'' := Option.some.inj (hs'.symm.trans hs'')
          rw [hdmabufs, hsame]
        · exact absurd (hs'.symm.trans hnone) (by simp)
    | some rr =>
        have hone : kernel.dmabufs = others + 1 := hothers
        have hleaked : leaked (⟨some rr, kernel⟩ : RrSystem m) e = [] := by cases e <;> rfl
        rw [hleaked, List.length_nil, Nat.add_zero]
        rcases handleLoaded_consistent (s := ⟨rr, kernel⟩) h e with
          ⟨s'', hs'', -, hdmabufs⟩ | ⟨hnone, -⟩
        · obtain rfl : s' = s'' := Option.some.inj (hs'.symm.trans hs'')
          rw [held]
          rcases hdmabufs with ⟨hloaded, hsame⟩ | ⟨hunloaded, hfreed⟩
          · rw [hsame, hloaded, hone]
            rfl
          · rw [hfreed, hunloaded, hone]
            rfl
        · exact absurd (hs'.symm.trans hnone) (by simp)
  · have hsame : s.step e = s := by
      rw [RrSystem.step, hnone]
      rfl
    have hleaked : leaked s e = [] := by
      cases e with
      | insmod _ _ _ => exact hcrash.elim
      | _ => rfl
    rw [hsame, hleaked]
    exact hothers

/-- **The DMA buffers.**  Apart from the buffer of the module that is loaded, the buffers that
remain are those of the calls of `rr_init` that failed behind the allocation, one for each: nothing
frees these. -/
theorem failed_inits_leak {kernel : Kernel} (h : kernel.Clear) (es : List (RrEvent m)) :
    (run step (⟨none, kernel⟩ : RrSystem m) es).kernel.dmabufs =
      kernel.dmabufs + (log step leaked (⟨none, kernel⟩ : RrSystem m) es).length +
        (run step (⟨none, kernel⟩ : RrSystem m) es).held := by
  have hrun := invariant_log
    (motive := fun (s : RrSystem m) calls =>
      s.Consistent ∧ s.kernel.dmabufs = kernel.dmabufs + calls.length + s.held)
    (fun s e calls hs _ => ⟨hs.1.step e, by
      rw [hs.1.dmabufs_step hs.2 e, List.length_append, ← Nat.add_assoc]⟩)
    (always_true _ _ es) ⟨consistent_unloaded h, rfl⟩
  exact hrun.2

theorem cardEvents_leak :
    (run step (⟨none, twoCards⟩ : RrSystem .lp64) cardEvents).kernel.dmabufs =
      twoCards.dmabufs + (log step leaked (⟨none, twoCards⟩ : RrSystem .lp64) cardEvents).length +
        (run step (⟨none, twoCards⟩ : RrSystem .lp64) cardEvents).held :=
  failed_inits_leak twoCards_clear cardEvents

end RrSystem

end Rawrabbit

end Gn4124Core
