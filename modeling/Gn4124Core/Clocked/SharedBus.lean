import Gn4124Core.Clocked.Framing

/-!
# Packet sources on a shared bus

Several sources send packets over one bus.  A source asks for the bus, and once it owns the
bus it sends a packet; the last word of a packet is flagged, and the bus is free again
unless the source asks for it in that very cycle.

* `Phase` is what the lines of a source say about it, `Phase.Next` is what a source may do
  in one cycle, and `NextOwner` what an arbiter may do.
* `Owned` is the invariant of the bus: only the owner has words on its lines.
* `Merges` says that a stream is made of whole packets of the sources.  A bus whose sources
  and arbiter keep to the protocol merges what they present (`Merging.step`).
-/

namespace Clocked

variable {K : Type*} {α : Type*}

/-- The lines of a source.  `dframe` says that the packet goes on after this word. -/
structure SourceLines (α : Type*) where
  valid : Bool
  dframe : Bool
  data : α
  req : Bool
deriving DecidableEq

/-- The phases of a source. -/
inductive Phase where
  | silent
  | asking
  | sending
  | ending (again : Bool)
deriving DecidableEq

namespace SourceLines

variable (l : SourceLines α)

def phase : Phase :=
  if l.dframe then .sending
  else if l.valid then .ending l.req
  else if l.req then .asking
  else .silent

/-- The word on the lines, flagged with whether its packet goes on. -/
def word : List (Bool × α) := if l.valid then [(l.dframe, l.data)] else []

/-- The last word of a packet is on the lines. -/
def last : Bool := !l.dframe && l.valid

variable {l}

theorem phase_eq_sending : l.phase = .sending ↔ l.dframe = true := by
  unfold phase
  split_ifs <;> simp_all

theorem phase_eq_ending {again : Bool} :
    l.phase = .ending again ↔ l.dframe = false ∧ l.valid = true ∧ l.req = again := by
  unfold phase
  split_ifs <;> simp_all

theorem phase_eq_asking :
    l.phase = .asking ↔ l.dframe = false ∧ l.valid = false ∧ l.req = true := by
  unfold phase
  split_ifs <;> simp_all

theorem phase_eq_silent :
    l.phase = .silent ↔ l.dframe = false ∧ l.valid = false ∧ l.req = false := by
  unfold phase
  split_ifs <;> simp_all

end SourceLines

/-- One cycle of a source that keeps to the protocol: it starts to send only while it has
the grant. -/
inductive Phase.Next (gnt : Bool) : Phase → Phase → Prop
  | rest : Next gnt .silent .silent
  | ask : Next gnt .silent .asking
  | wait : Next gnt .asking .asking
  | start : gnt = true → Next gnt .asking .sending
  | send : Next gnt .sending .sending
  | last (again : Bool) : Next gnt .sending (.ending again)
  | done : Next gnt (.ending false) .silent
  | askNext : Next gnt (.ending false) .asking
  | waitAgain : Next gnt (.ending true) .asking
  | startAgain : gnt = true → Next gnt (.ending true) .sending

/-- The phases of a source that owns the bus and has begun a packet. -/
def Phase.Busy : Phase → Prop
  | .sending | .ending _ => True
  | _ => False

namespace Phase.Next

variable {gnt : Bool} {p p' : Phase}

theorem not_busy (h : Next false p p') (hp : ¬ p.Busy) : ¬ p'.Busy := by
  cases h with
  | rest => exact hp
  | ask => exact id
  | wait => exact id
  | start hgnt => simp at hgnt
  | send => exact hp
  | last again => exact absurd trivial hp
  | done => exact id
  | askNext => exact id
  | waitAgain => exact id
  | startAgain hgnt => simp at hgnt

theorem not_busy_of_ending (h : Next gnt (.ending false) p') : ¬ p'.Busy := by
  cases h <;> exact id

theorem busy_of_sending (h : Next gnt .sending p') : p'.Busy := by
  cases h <;> trivial

theorem not_silent (h : Next gnt p p') (hp : p ≠ .silent) (hending : p ≠ .ending false) :
    p' ≠ .silent := by
  cases h <;> simp_all

/-- Without a request a source starts to ask or does not, whether or not a packet ends. -/
theorem of_idle {l : SourceLines α} (hdframe : l.dframe = false) (hreq : l.req = false)
    (hnext : p' = .silent ∨ p' = .asking) : Next gnt l.phase p' := by
  cases hvalid : l.valid with
  | false =>
      have hnow : l.phase = .silent := by simp [SourceLines.phase, hdframe, hvalid, hreq]
      rw [hnow]
      rcases hnext with rfl | rfl
      · exact .rest
      · exact .ask
  | true =>
      have hnow : l.phase = .ending false := by simp [SourceLines.phase, hdframe, hvalid, hreq]
      rw [hnow]
      rcases hnext with rfl | rfl
      · exact .done
      · exact .askNext

/-- With a request it waits or, with the grant, begins, whether or not a packet ends. -/
theorem of_request {l : SourceLines α} (hdframe : l.dframe = false) (hreq : l.req = true)
    (hnext : p' = .asking ∨ gnt = true ∧ p' = .sending) : Next gnt l.phase p' := by
  cases hvalid : l.valid with
  | false =>
      have hnow : l.phase = .asking := by simp [SourceLines.phase, hdframe, hvalid, hreq]
      rw [hnow]
      rcases hnext with rfl | ⟨hgnt, rfl⟩
      · exact .wait
      · exact .start hgnt
  | true =>
      have hnow : l.phase = .ending true := by simp [SourceLines.phase, hdframe, hvalid, hreq]
      rw [hnow]
      rcases hnext with rfl | ⟨hgnt, rfl⟩
      · exact .waitAgain
      · exact .startAgain hgnt

/-- Inside a packet the next word is sent, or the last one. -/
theorem of_frame {l : SourceLines α} (hdframe : l.dframe = true)
    (hnext : p' = .sending ∨ ∃ again, p' = .ending again) : Next gnt l.phase p' := by
  have hnow : l.phase = .sending := by simp [SourceLines.phase, hdframe]
  rw [hnow]
  rcases hnext with rfl | ⟨again, rfl⟩
  · exact .send
  · exact .last again

end Phase.Next

namespace SourceLines

variable {gnt : Bool} {l : SourceLines α} {p' : Phase}

theorem asking_of_not_busy (h : ¬ l.phase.Busy) (hreq : l.req = true) : l.phase = .asking := by
  unfold phase at h ⊢
  split_ifs at h ⊢ <;> simp_all [Phase.Busy]

theorem last_iff : l.last = true ∧ l.req = false ↔ l.phase = .ending false := by
  rw [phase_eq_ending, last, Bool.and_eq_true, Bool.not_eq_true', and_assoc]

/-- A source that asks for the bus, or is in a packet that goes on, has a use for the bus in the
next cycle. -/
theorem next_not_silent (hnext : Phase.Next gnt l.phase p')
    (hclaims : l.req = true ∨ l.phase ≠ .silent ∧ l.last = false) : p' ≠ .silent := by
  rcases hclaims with hreq | ⟨hphase, hlast⟩
  · refine hnext.not_silent ?_ ?_
    · intro hsilent
      exact absurd (hreq.symm.trans (phase_eq_silent.mp hsilent).2.2) (by decide)
    · intro hending
      exact absurd (hreq.symm.trans (phase_eq_ending.mp hending).2.2) (by decide)
  · refine hnext.not_silent hphase ?_
    intro hending
    exact absurd (hlast.symm.trans (last_iff.mpr hending).1) (by decide)

/-- Among these, a source that waits for the grant has asked before. -/
theorem req_of_next_asking (hnext : Phase.Next gnt l.phase .asking)
    (hclaims : l.req = true ∨ l.phase ≠ .silent ∧ l.last = false) : l.req = true := by
  rcases hclaims with hreq | ⟨hsilent, hlast⟩
  · exact hreq
  · cases hphase : l.phase with
    | silent => exact absurd hphase hsilent
    | asking => exact (phase_eq_asking.mp hphase).2.2
    | sending =>
        rw [hphase] at hnext
        exact absurd hnext.busy_of_sending id
    | ending again =>
        obtain ⟨hdframe, hvalid, -⟩ := phase_eq_ending.mp hphase
        simp [last, hdframe, hvalid] at hlast

theorem sending_of_busy (h : l.phase.Busy) (hvalid : l.valid = false) : l.phase = .sending := by
  unfold phase at h ⊢
  split_ifs at h ⊢ <;> simp_all [Phase.Busy]

end SourceLines

/-! ## The owner of the bus -/

/-- What an arbiter may do in one cycle: it keeps the owner until the end of its packet, and
gives a free bus to a source that asks. -/
def NextOwner (lines : K → SourceLines α) : Option K → Option K → Prop
  | some k, owner' => owner' = if (lines k).last ∧ (lines k).req = false then none else some k
  | none, some k => (lines k).req = true
  | none, none => True

/-- Only the owner may have a packet under way, and the owner either has one or asks. -/
structure Owned (owner : Option K) (lines : K → SourceLines α) : Prop where
  busy : ∀ k, (lines k).phase.Busy → owner = some k
  notSilent : ∀ k, owner = some k → (lines k).phase ≠ .silent

section Owner

variable {owner owner' : Option K} {lines lines' : K → SourceLines α}

theorem Owned.word_eq_nil (h : Owned owner lines) {k : K} (hne : owner ≠ some k) :
    (lines k).word = [] := by
  have hbusy : ¬ (lines k).phase.Busy := fun hbusy => hne (h.busy k hbusy)
  unfold SourceLines.word
  split
  case isTrue hvalid =>
      exfalso
      apply hbusy
      unfold SourceLines.phase
      split_ifs <;> trivial
  case isFalse => rfl

variable [DecidableEq K]

/-- A source without the grant that has no packet under way starts none. -/
theorem Owned.not_busy_of_ne (h : Owned owner lines) {k : K}
    (hsource : Phase.Next (decide (owner = some k)) (lines k).phase (lines' k).phase)
    (hne : owner ≠ some k) : ¬ (lines' k).phase.Busy := by
  rw [decide_eq_false hne] at hsource
  exact hsource.not_busy fun hbusy => hne (h.busy k hbusy)

theorem Owned.step (h : Owned owner lines)
    (hsources : ∀ k, Phase.Next (decide (owner = some k)) (lines k).phase (lines' k).phase)
    (howner : NextOwner lines owner owner') : Owned owner' lines' := by
  cases owner with
  | none =>
      have hfree : ∀ k, ¬ (lines' k).phase.Busy :=
        fun k => h.not_busy_of_ne (hsources k) (by simp)
      refine ⟨fun k hbusy => absurd hbusy (hfree k), fun k hk => ?_⟩
      subst hk
      -- a source that gets the free bus has been asking, and is still asking
      have hnot : ¬ (lines k).phase.Busy := fun hbusy => by simpa using h.busy k hbusy
      have hasking := SourceLines.asking_of_not_busy hnot howner
      have hnext := hsources k
      rw [hasking] at hnext
      exact hnext.not_silent (by simp) (by simp)
  | some k₀ =>
      have hothers : ∀ k, k ≠ k₀ → ¬ (lines' k).phase.Busy := fun k hk =>
        h.not_busy_of_ne (hsources k) (by simpa using fun heq => hk heq.symm)
      have hnext := hsources k₀
      simp only [NextOwner, SourceLines.last_iff] at howner
      by_cases hending : (lines k₀).phase = .ending false
      · rw [if_pos hending] at howner
        rw [hending] at hnext
        subst howner
        refine ⟨fun k hbusy => ?_, by simp⟩
        by_cases hk : k = k₀
        · subst hk
          exact absurd hbusy hnext.not_busy_of_ending
        · exact absurd hbusy (hothers k hk)
      · rw [if_neg hending] at howner
        subst howner
        refine ⟨fun k hbusy => ?_, fun k hk => ?_⟩
        · by_contra hne
          exact hothers k (fun heq => hne (by rw [heq])) hbusy
        · obtain rfl := Option.some.inj hk
          exact hnext.not_silent (h.notSilent k₀ rfl) hending

end Owner

/-! ## The stream on the bus -/

/-- All the words come from one source. -/
def OneSource (p : List (K × α)) : Prop := ∀ v ∈ p, ∀ w ∈ p, v.1 = w.1

theorem OneSource.left {p q : List (K × α)} (h : OneSource (p ++ q)) : OneSource p :=
  fun v hv w hw => h v (List.mem_append_left q hv) w (List.mem_append_left q hw)

/-- The word of the owner, under its name. -/
def busWord (owner : Option K) (lines : K → SourceLines α) : List (Bool × K × α) :=
  match owner with
  | none => []
  | some k => (lines k).word.map fun w => (w.1, k, w.2)

/-- The words of a stream, without the names of their sources. -/
def untagged (merged : List (Bool × K × α)) : List (Bool × α) := merged.map fun w => (w.1, w.2.2)

theorem untagged_busWord (k : K) (lines : K → SourceLines α) :
    untagged (busWord (some k) lines) = (lines k).word := by
  simp [untagged, busWord, Function.comp_def]

/-- The words of one source in a stream. -/
def wordsOf [DecidableEq K] (k : K) (merged : List (Bool × K × α)) : List (Bool × α) :=
  merged.filterMap fun w => if w.2.1 = k then some (w.1, w.2.2) else none

/-- A stream is made of whole packets, each from one source: the words of every source are
those it has presented, in its order. -/
structure Merges [DecidableEq K] (presented : K → List (Bool × α))
    (merged : List (Bool × K × α)) : Prop where
  whole : ∀ p ∈ packets merged, OneSource p
  current : OneSource (openPacket merged)
  complete : ∀ k, wordsOf k merged = presented k

/-- The stream so far is made of whole packets, and the packet under way is the owner's. -/
structure Merging (owner : Option K) (lines : K → SourceLines α)
    (merged : List (Bool × K × α)) : Prop where
  whole : ∀ p ∈ packets merged, OneSource p
  current : ∀ w ∈ openPacket merged, owner = some w.1 ∧ (lines w.1).phase.Busy

theorem Merging.oneSource {owner : Option K} {lines : K → SourceLines α}
    {merged : List (Bool × K × α)} (h : Merging owner lines merged) : OneSource (openPacket merged) := by
  intro v hv w hw
  have hsame := (h.current v hv).1.symm.trans (h.current w hw).1
  exact Option.some.inj hsame

section Stream

variable [DecidableEq K] {owner owner' : Option K} {lines lines' : K → SourceLines α}
  {merged : List (Bool × K × α)}

/-- The packet of the owner goes on. -/
theorem busy_of_sending {k : K}
    (hsources : ∀ k, Phase.Next (decide (owner = some k)) (lines k).phase (lines' k).phase)
    (howner : NextOwner lines owner owner') (hk : owner = some k)
    (hsending : (lines k).phase = .sending) : owner' = some k ∧ (lines' k).phase.Busy := by
  subst hk
  have hnext := hsources k
  rw [hsending] at hnext
  simp only [NextOwner, SourceLines.last_iff, hsending, reduceCtorEq, if_false] at howner
  exact ⟨howner, hnext.busy_of_sending⟩

theorem Merging.step (h : Merging owner lines merged)
    (hsources : ∀ k, Phase.Next (decide (owner = some k)) (lines k).phase (lines' k).phase)
    (howner : NextOwner lines owner owner') :
    Merging owner' lines' (merged ++ busWord owner lines) := by
  cases owner with
  | none =>
      have hempty : openPacket merged = [] := by
        refine List.eq_nil_iff_forall_not_mem.mpr fun w hw => ?_
        simpa using (h.current w hw).1
      rw [busWord, List.append_nil]
      exact ⟨h.whole, by simp [hempty]⟩
  | some k =>
      cases hvalid : (lines k).valid with
      | false =>
          -- a source that pauses within its packet keeps the bus
          have hword : busWord (some k) lines = [] := by simp [busWord, SourceLines.word, hvalid]
          rw [hword, List.append_nil]
          refine ⟨h.whole, fun w hw => ?_⟩
          obtain ⟨hk, hbusy⟩ := h.current w hw
          obtain rfl := Option.some.inj hk
          exact busy_of_sending hsources howner rfl (SourceLines.sending_of_busy hbusy hvalid)
      | true =>
          cases hdframe : (lines k).dframe with
          | true =>
              have hword : busWord (some k) lines = [(true, k, (lines k).data)] := by
                simp [busWord, SourceLines.word, hvalid, hdframe]
              have hnext := busy_of_sending hsources howner rfl
                (SourceLines.phase_eq_sending.mpr hdframe)
              rw [hword]
              refine ⟨by simpa using h.whole, fun w hw => ?_⟩
              rw [openPacket_more, List.mem_append, List.mem_singleton] at hw
              rcases hw with hw | rfl
              · obtain rfl := Option.some.inj (h.current w hw).1
                exact hnext
              · exact hnext
          | false =>
              -- the packet is complete, and all its words are from the owner
              have hword : busWord (some k) lines = [(false, k, (lines k).data)] := by
                simp [busWord, SourceLines.word, hvalid, hdframe]
              rw [hword]
              refine ⟨fun p hp => ?_, by simp⟩
              rw [packets_last, List.mem_append, List.mem_singleton] at hp
              rcases hp with hp | rfl
              · exact h.whole p hp
              · have htag : ∀ w ∈ openPacket merged ++ [(k, (lines k).data)], w.1 = k := by
                  intro w hw
                  rw [List.mem_append, List.mem_singleton] at hw
                  rcases hw with hw | rfl
                  · exact (Option.some.inj (h.current w hw).1).symm
                  · rfl
                exact fun v hv w hw => (htag v hv).trans (htag w hw).symm

/-- The bus carries what each source presents. -/
theorem Owned.wordsOf_busWord (h : Owned owner lines) (k : K) :
    wordsOf k (busWord owner lines) = (lines k).word := by
  cases owner with
  | none =>
      rw [h.word_eq_nil (by simp)]
      rfl
  | some k₀ =>
      by_cases hk : k₀ = k
      · subst hk
        simp only [wordsOf, busWord, List.filterMap_map, Function.comp_def, if_true]
        exact List.filterMap_some
      · rw [h.word_eq_nil (by simpa using hk)]
        simp [wordsOf, busWord, List.filterMap_map, hk]

/-! ## The packets of one source -/

/-- A word of the packet comes from the source `k`. -/
def comesFrom (k : K) (p : List (K × α)) : Bool := p.any fun w => decide (w.1 = k)

@[simp] theorem comesFrom_nil (k : K) : comesFrom k ([] : List (K × α)) = false := rfl

theorem comesFrom_concat {p : List (K × α)} {j k : K} {d : α} (h : OneSource (p ++ [(j, d)])) :
    comesFrom k (p ++ [(j, d)]) = decide (j = k) := by
  have htag : ∀ w ∈ p ++ [(j, d)], w.1 = j := fun w hw => h w hw (j, d) (by simp)
  by_cases hjk : j = k
  · simp [comesFrom, hjk]
  · rw [decide_eq_false hjk, comesFrom, List.any_eq_false]
    intro w hw
    rw [htag w hw]
    simpa using hjk

/-- What a source shows of a packet that it may have under way. -/
theorem current_of_concat {p : List (K × α)} {j k : K} {d : α} (h : OneSource (p ++ [(j, d)])) :
    (if comesFrom k p then p.map Prod.snd else []) = if j = k then p.map Prod.snd else [] := by
  have htag : ∀ w ∈ p, w.1 = j := fun w hw => h w (by simp [hw]) (j, d) (by simp)
  by_cases hjk : j = k
  · subst hjk
    cases p with
    | nil => simp
    | cons w p =>
        have hw := htag w (List.mem_cons_self ..)
        simp [comesFrom, hw]
  · have hfrom : comesFrom k p = false := by
      rw [comesFrom, List.any_eq_false]
      intro w hw
      rw [htag w hw]
      simpa using hjk
    simp [hfrom, hjk]

theorem wordsOf_concat (k : K) (w : Bool × K × α) :
    wordsOf k (merged ++ [w]) = wordsOf k merged ++ if w.2.1 = k then [(w.1, w.2.2)] else [] := by
  simp only [wordsOf, List.filterMap_append, List.filterMap_cons, List.filterMap_nil]
  split_ifs <;> rfl

/-- In a stream of whole packets, the packets of a source are those that come from it. -/
theorem packets_wordsOf (hwhole : ∀ p ∈ packets merged, OneSource p)
    (hcurrent : OneSource (openPacket merged)) (k : K) :
    packets (wordsOf k merged) = ((packets merged).filter (comesFrom k)).map (List.map Prod.snd) ∧
      openPacket (wordsOf k merged) =
        if comesFrom k (openPacket merged) then (openPacket merged).map Prod.snd else [] := by
  induction merged using List.reverseRecOn with
  | nil => exact ⟨rfl, rfl⟩
  | append_singleton merged w ih =>
      obtain ⟨more, j, d⟩ := w
      rw [wordsOf_concat]
      cases more with
      | true =>
          rw [packets_more] at hwhole
          rw [openPacket_more] at hcurrent
          obtain ⟨hpackets, hopen⟩ := ih hwhole hcurrent.left
          rw [current_of_concat hcurrent] at hopen
          rw [packets_more, openPacket_more, comesFrom_concat hcurrent]
          by_cases hjk : j = k
          · simp [hjk, hpackets, hopen]
          · simp [hjk, hpackets, hopen]
      | false =>
          -- the open packet with this word is whole
          rw [packets_last] at hwhole
          have hlast := hwhole (openPacket merged ++ [(j, d)]) (by simp)
          obtain ⟨hpackets, hopen⟩ :=
            ih (fun p hp => hwhole p (List.mem_append_left _ hp)) hlast.left
          rw [current_of_concat hlast] at hopen
          have hfrom := comesFrom_concat (k := k) hlast
          rw [packets_last, openPacket_last, List.filter_append]
          by_cases hjk : j = k
          · subst hjk
            rw [decide_eq_true rfl] at hfrom
            simp [hpackets, hopen, hfrom]
          · rw [decide_eq_false hjk] at hfrom
            simp [hjk, hpackets, hopen, hfrom]

end Stream

end Clocked
