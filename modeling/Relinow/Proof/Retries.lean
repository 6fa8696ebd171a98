import Relinow.Proof.RttEstimate

/-!
# Every send is retired once, and on schedule

A packet is written into a free slot and leaves it by an ACK that names it or by
TX_FAILED, whichever comes first. In between it is sent again each time its
timeout runs out, at most `max_retries` times.

The record of a run tells the packets apart, which the engine cannot: `Booked`
ties each slot in use to the entries of its packet in the log, and the claims
about slots become claims about the log. Elapsed time is computed modulo `2 ^ 32`
in the engine. That can make a timeout late, but never early.
-/

namespace Relinow

open SlotTable Runs

/-! ## Reading the log -/

/-- The transmission of packet `n` that a note records, with its time and estimate. -/
def Note.transmission (n : Nat) : Note → Option (Nat × U16)
  | .sent m _ now rtt => if m = n then some (now, rtt) else none
  | .resent m now rtt => if m = n then some (now, rtt) else none
  | _ => none

/-- A TX_RETRANSMIT event of packet `n`. -/
def Note.isResend (n : Nat) : Note → Bool
  | .resent m _ _ => m == n
  | _ => false

/-- The end of packet `n`: a matching ACK, or its TX_FAILED event. -/
def Note.isRetirement (n : Nat) : Note → Bool
  | .acked m _ _ => m == n
  | .failed m _ => m == n
  | _ => false

def transmissions (log : List Note) (n : Nat) : List (Nat × U16) :=
  log.filterMap (Note.transmission n)

def resends (log : List Note) (n : Nat) : Nat := log.countP (Note.isResend n)

def retirements (log : List Note) (n : Nat) : Nat := log.countP (Note.isRetirement n)

/-- How many packets were acknowledged. -/
def ackedCount (log : List Note) : Nat :=
  log.countP fun
    | .acked _ _ _ => true
    | _ => false

/-- How many packets were given up. -/
def failedCount (log : List Note) : Nat :=
  log.countP fun
    | .failed _ _ => true
    | _ => false

theorem transmissions_snoc (log : List Note) (note : Note) (n : Nat) :
    transmissions (log ++ [note]) n = transmissions log n ++ (note.transmission n).toList := by
  unfold transmissions
  rw [List.filterMap_append]
  cases h : note.transmission n <;> simp [h]

theorem resends_snoc (log : List Note) (note : Note) (n : Nat) :
    resends (log ++ [note]) n = resends log n + if note.isResend n then 1 else 0 := by
  unfold resends
  rw [List.countP_append, List.countP_singleton]

theorem resends_resent (log : List Note) (n now : Nat) (rtt : U16) :
    resends (log ++ [.resent n now rtt]) n = resends log n + 1 := by
  rw [resends_snoc, Note.isResend, beq_self_eq_true, if_pos rfl]

theorem retirements_snoc (log : List Note) (note : Note) (n : Nat) :
    retirements (log ++ [note]) n = retirements log n + if note.isRetirement n then 1 else 0 := by
  unfold retirements
  rw [List.countP_append, List.countP_singleton]

/-- A note counts as an end or not, whatever came before it. -/
theorem ends_snoc (log : List Note) (note : Note) :
    ackedCount (log ++ [note]) + failedCount (log ++ [note])
      = ackedCount log + failedCount log + (ackedCount [note] + failedCount [note]) := by
  unfold ackedCount failedCount
  rw [List.countP_append, List.countP_append]
  exact Nat.add_add_add_comm _ _ _ _

/-- The packet a note is about. -/
def Note.packet : Note → Nat
  | .sent n _ _ _ | .resent n _ _ | .acked n _ _ | .failed n _ => n

/-- A note says nothing of other packets. -/
theorem snoc_other (log : List Note) {note : Note} {n : Nat} (h : note.packet ≠ n) :
    transmissions (log ++ [note]) n = transmissions log n
      ∧ resends (log ++ [note]) n = resends log n
      ∧ retirements (log ++ [note]) n = retirements log n := by
  rw [transmissions_snoc, resends_snoc, retirements_snoc]
  cases note with
  | sent m _ _ _ => simp [Note.transmission, Note.isResend, Note.isRetirement, show m ≠ n from h]
  | resent m _ _ => simp [Note.transmission, Note.isResend, Note.isRetirement, show m ≠ n from h]
  | acked m _ _ => simp [Note.transmission, Note.isResend, Note.isRetirement, show m ≠ n from h]
  | failed m _ => simp [Note.transmission, Note.isResend, Note.isRetirement, show m ≠ n from h]

/-- Nor does a log without a note on the packet. -/
theorem log_other {log : List Note} {n : Nat} (h : ∀ note ∈ log, note.packet ≠ n) :
    transmissions log n = [] ∧ resends log n = 0 ∧ retirements log n = 0 := by
  induction log using List.reverseRecOn with
  | nil => exact ⟨rfl, rfl, rfl⟩
  | append_singleton log note ih =>
      obtain ⟨htx, hre, hret⟩ := snoc_other log (h note (List.mem_append_right _ (.head _)))
      rw [htx, hre, hret]
      exact ih fun x hx => h x (List.mem_append_left _ hx)

/-- By `now`, the timeout set at the last transmission of packet `n` has run out. -/
def OnTime (log : List Note) (n now : Nat) : Prop :=
  ∃ t rtt, (transmissions log n).getLast? = some (t, rtt)
    ∧ t + backoff (resends log n) rtt.toNat ≤ now

/-- What is asked of a note, given those before it: retransmissions and failures are on time, and a
packet fails only after `m` retransmissions. -/
def NoteDue (m : Nat) (log : List Note) : Note → Prop
  | .resent n now _ => OnTime log n now
  | .failed n now => OnTime log n now ∧ resends log n = m
  | _ => True

/-- The timer of a slot that holds packet `n`: when and with which estimate it was last sent. -/
structure Timer (log : List Note) (n : Nat) (slot : Pending) (now : Nat) (rtt : U16) : Prop where
  last : (transmissions log n).getLast? = some (now, rtt)
  lastSendMs : slot.lastSendMs = clock now
  timeoutMs : slot.timeoutMs.toNat = backoff (resends log n) rtt.toNat
  retries : slot.retries.toNat = resends log n

/-- A packet that was sent from slot `i` is still there and not retired, or in no slot and retired
once. -/
def InSlot (w : EngineRun) (n : Nat) (i : Fin maxPending) : Prop :=
  w.Holds i n ∧ retirements w.log n = 0 ∨ (∀ j, ¬ w.Holds j n) ∧ retirements w.log n = 1

/-- The books of a run up to time `T`, with `m` retries allowed. -/
structure Booked (m T : Nat) (w : EngineRun) : Prop where
  numbered : SlotsNumbered w
  maxRetries : w.ctx.cfg.maxRetries.toNat = m
  noted : ∀ n < w.sends, ∃ i now rtt, .sent n i now rtt ∈ w.log
  placed : ∀ n i now rtt, .sent n i now rtt ∈ w.log → InSlot w n i
  timers : ∀ i n, w.Holds i n → ∃ now rtt, Timer w.log n w.ctx.pending[i] now rtt ∧ now ≤ T
  resent : ∀ n, resends w.log n ≤ m
  history : ∀ k note, w.log[k]? = some note → NoteDue m (w.log.take k) note
  balance : w.sends = (pendingSeqs w.ctx).card + ackedCount w.log + failedCount w.log
  /-- Nothing is on record of a packet not sent yet. -/
  unsent : ∀ note ∈ w.log, note.packet < w.sends

theorem booked_init (cfg : Option ReliableConfig) :
    Booked (reliableInit cfg).cfg.maxRetries.toNat 0 (EngineRun.start (reliableInit cfg)) where
  numbered := numbered_init cfg
  maxRetries := rfl
  noted _ hn := absurd hn (Nat.not_lt_zero _)
  placed _ _ _ _ h := absurd h List.not_mem_nil
  timers i n h := absurd h (holds_start _ (pendingSeqs_init cfg) i n)
  resent _ := Nat.zero_le _
  history k note h := absurd h (by simp [EngineRun.start])
  balance := rfl
  unsent _ h := absurd h List.not_mem_nil

theorem Booked.later {m T T' : Nat} {w : EngineRun} (h : Booked m T w) (hT : T ≤ T') :
    Booked m T' w :=
  { h with
    timers := fun i n hi => by
      obtain ⟨now, rtt, htimer, hle⟩ := h.timers i n hi
      exact ⟨now, rtt, htimer, hle.trans hT⟩ }

/-- A timer outlives a note on another packet. -/
theorem Timer.other {log : List Note} {note : Note} {n now : Nat} {slot : Pending} {rtt : U16}
    (h : Timer log n slot now rtt) (hne : note.packet ≠ n) :
    Timer (log ++ [note]) n slot now rtt := by
  obtain ⟨htx, hre, _⟩ := snoc_other log hne
  exact ⟨htx ▸ h.last, h.lastSendMs, hre ▸ h.timeoutMs, hre ▸ h.retries⟩

/-- The timer a send sets. -/
theorem Timer.sent {log : List Note} {n now : Nat} {i : Fin maxPending} {ctx : ReliableCtx}
    (hre : resends log n = 0) :
    Timer (log ++ [.sent n i now ctx.rttEstimateMs]) n (newPending ctx (clock now)) now
      ctx.rttEstimateMs := by
  have hre' : resends (log ++ [.sent n i now ctx.rttEstimateMs]) n = 0 := by
    rw [resends_snoc, hre]
    rfl
  refine ⟨?_, rfl, ?_, ?_⟩
  · rw [transmissions_snoc]
    simp [Note.transmission]
  · rw [hre']
    exact computeTimeoutMs_toNat _ _
  · rw [hre']
    rfl

/-- The timer a retransmission sets. -/
theorem Timer.resent {log : List Note} {n t now : Nat} {slot : Pending} {rtt : U16}
    {ctx : ReliableCtx} (h : Timer log n slot t rtt) (hlt : resends log n < 255) :
    Timer (log ++ [.resent n now ctx.rttEstimateMs]) n (resentPending ctx slot (clock now)) now
      ctx.rttEstimateMs := by
  have hre := resends_resent log n now ctx.rttEstimateMs
  -- the 8-bit counter does not wrap
  have hk : (slot.retries + 1#8).toNat = resends log n + 1 := by
    rw [BitVec.toNat_add, h.retries]
    exact Nat.mod_eq_of_lt (by simp; omega)
  refine ⟨?_, rfl, ?_, ?_⟩
  · rw [transmissions_snoc]
    simp [Note.transmission]
  · rw [hre, ← hk]
    exact computeTimeoutMs_toNat _ _
  · rw [hre]
    exact hk

/-- **A slot that has expired is due.** -/
theorem Timer.onTime {log : List Note} {n t now : Nat} {slot : Pending} {rtt : U16}
    (h : Timer log n slot t rtt) (hle : t ≤ now) (hexp : slot.expired (clock now) = true) :
    OnTime log n now := by
  unfold Pending.expired at hexp
  have hout := of_decide_eq_true (Bool.and_eq_true _ _ ▸ hexp).2
  rw [h.timeoutMs, h.lastSendMs] at hout
  have hel := elapsed_le hle
  exact ⟨t, rtt, h.last, by omega⟩

/-! ## One call -/

/-- What a call does that makes a note: only the packet of the note is touched. -/
structure EngineRun.Notes (w w' : EngineRun) (note : Note) : Prop where
  log : w'.log = w.log ++ [note]
  cfg : w'.ctx.cfg = w.ctx.cfg
  held : ∀ n, note.packet ≠ n → ∀ i, (w'.Holds i n ↔ w.Holds i n)
  slot : ∀ n, note.packet ≠ n → ∀ i, w.Holds i n → w'.ctx.pending[i] = w.ctx.pending[i]

/-- **The frame of a call.** The books are in order again once those of the packet in the note
are. -/
theorem Booked.note {m T now : Nat} {w w' : EngineRun} {note : Note} (h : Booked m T w)
    (hT : T ≤ now) (hnotes : w.Notes w' note) (hnum : SlotsNumbered w')
    (hsends : ∀ n, n < w'.sends ↔ n < w.sends ∨ n = note.packet)
    (hnoted : ∃ i now rtt, .sent note.packet i now rtt ∈ w'.log)
    (hplaced : ∀ i now rtt, .sent note.packet i now rtt ∈ w'.log → InSlot w' note.packet i)
    (htimer : ∀ i, w'.Holds i note.packet →
      ∃ t rtt, Timer w'.log note.packet w'.ctx.pending[i] t rtt ∧ t ≤ now)
    (hresent : resends w'.log note.packet ≤ m) (hdue : NoteDue m w.log note)
    (hbalance : w'.sends = (pendingSeqs w'.ctx).card + ackedCount w'.log + failedCount w'.log) :
    Booked m now w' where
  numbered := hnum
  maxRetries := by rw [hnotes.cfg, h.maxRetries]
  noted n hn := by
    by_cases he : note.packet = n
    · exact he ▸ hnoted
    · obtain ⟨i, t, rtt, hmem⟩ := h.noted n (((hsends n).mp hn).resolve_right (Ne.symm he))
      exact ⟨i, t, rtt, hnotes.log ▸ List.mem_append_left _ hmem⟩
  placed n i t rtt hmem := by
    by_cases he : note.packet = n
    · exact he ▸ hplaced i t rtt (he ▸ hmem)
    · rw [hnotes.log, List.mem_append, List.mem_singleton] at hmem
      have hold : .sent n i t rtt ∈ w.log := hmem.resolve_right fun hn => he (hn ▸ rfl)
      unfold InSlot
      rw [hnotes.log, (snoc_other w.log he).2.2]
      simp only [hnotes.held n he]
      exact h.placed n i t rtt hold
  timers i n hi := by
    by_cases he : note.packet = n
    · exact he ▸ htimer i (he ▸ hi)
    · have hold := (hnotes.held n he i).mp hi
      obtain ⟨t, rtt, ht, hle⟩ := h.timers i n hold
      rw [hnotes.log, hnotes.slot n he i hold]
      exact ⟨t, rtt, ht.other he, hle.trans hT⟩
  resent n := by
    by_cases he : note.packet = n
    · exact he ▸ hresent
    · rw [hnotes.log, (snoc_other w.log he).2.1]
      exact h.resent n
  history := hnotes.log ▸ history_snoc h.history hdue
  balance := hbalance
  unsent x hx := by
    rw [hnotes.log, List.mem_append, List.mem_singleton] at hx
    rcases hx with hx | rfl
    · exact (hsends _).mpr (Or.inl (h.unsent x hx))
    · exact (hsends _).mpr (Or.inr rfl)

/-- **A packet is sent.** -/
theorem Booked.send {m T now : Nat} {w : EngineRun} (h : Booked m T w) (hT : T ≤ now) :
    Booked m now (w.send now) := by
  have hnum := h.numbered.send now
  rcases w.send_cases now with ⟨_, heq⟩ | ⟨i, hfree, heq⟩
  · rw [heq]
    exact h.later hT
  rw [heq] at hnum ⊢
  -- nothing is on record of the new packet, and the slot it goes to was free
  obtain ⟨htx, hre, hret⟩ := log_other fun note hn => Nat.ne_of_lt (h.unsent note hn)
  have hne : ∀ j n, w.Holds j n → i ≠ j := by
    rintro j n ⟨hu, _⟩ rfl
    rw [hfree] at hu
    exact Bool.noConfusion hu
  refine h.note hT ⟨rfl, rfl, fun n hn j => ?_, fun n _ j hj => put_ne (hne j n hj)⟩ hnum
    (fun n => Nat.lt_succ_iff_lt_or_eq) ⟨i, now, _, List.mem_append_right _ (.head _)⟩
    (fun j t rtt hmem => Or.inl ⟨?_, ?_⟩) (fun j hj => ?_) ?_ trivial ?_
  · refine (EngineRun.holds_fill rfl rfl).trans ⟨fun ho => ?_, fun ho => Or.inr ⟨hne j n ho, ho⟩⟩
    rcases ho with ⟨_, rfl⟩ | ⟨_, ho⟩
    · exact absurd rfl hn
    · exact ho
  · rcases List.mem_append.mp hmem with hold | hmem
    · exact absurd (h.unsent _ hold) (Nat.lt_irrefl _)
    · have hj : j = i := by
        have := List.mem_singleton.mp hmem
        exact (Note.sent.inj this).2.1
      exact (EngineRun.holds_fill rfl rfl).mpr (Or.inl ⟨hj.symm, rfl⟩)
  · show retirements (w.log ++ _) w.sends = 0
    rw [retirements_snoc, hret]
    rfl
  · have hij : i = j := by
      rcases (EngineRun.holds_fill rfl rfl).mp hj with ⟨hij, _⟩ | ⟨_, ho⟩
      · exact hij
      · exact absurd (h.numbered.lt j _ ho) (Nat.lt_irrefl _)
    subst hij
    refine ⟨now, w.ctx.rttEstimateMs, ?_, le_rfl⟩
    show Timer (w.log ++ _) w.sends (w.ctx.pending.put i _)[i] _ _
    rw [put_self]
    exact Timer.sent hre
  · show resends (w.log ++ _) w.sends ≤ m
    rw [resends_snoc, hre]
    exact Nat.zero_le _
  · have hks := keys_fill Pending.seqId (x := newPending w.ctx (clock now)) hfree rfl
    have hends := ends_snoc w.log (.sent w.sends i now w.ctx.rttEstimateMs)
    have hnone : ackedCount [.sent w.sends i now w.ctx.rttEstimateMs]
        + failedCount [.sent w.sends i now w.ctx.rttEstimateMs] = 0 := rfl
    have hbal := h.balance
    unfold pendingSeqs at hbal ⊢
    dsimp only
    rw [hks, Multiset.card_cons]
    omega

/-- **A packet is retired**, by its ACK or by its failure. -/
theorem Booked.retired {m T now : Nat} {w : EngineRun} {i : Fin maxPending} {note : Note}
    (h : Booked m T w) (hT : T ≤ now) (hu : w.ctx.pending[i].inUse = true) (rtt : U16)
    (hnote : (∃ x, note = .acked w.owner[i] now x) ∨ note = .failed w.owner[i] now)
    (hdue : NoteDue m w.log note) :
    Booked m now { w with
      ctx := { w.ctx with
        rttEstimateMs := rtt
        pending := w.ctx.pending.put i { w.ctx.pending[i] with inUse := false } }
      log := w.log ++ [note] } := by
  have hkeeps := EngineRun.release_keeps hu rtt (w.log ++ [note])
  have hholds : w.Holds i w.owner[i] := ⟨hu, rfl⟩
  have hpacket : note.packet = w.owner[i] := by
    rcases hnote with ⟨_, rfl⟩ | rfl <;> rfl
  have hre : note.isResend w.owner[i] = false := by
    rcases hnote with ⟨_, rfl⟩ | rfl <;> rfl
  have hret : note.isRetirement w.owner[i] = true := by
    rcases hnote with ⟨_, rfl⟩ | rfl <;> exact beq_self_eq_true _
  have hsent : ∀ j t x, .sent w.owner[i] j t x ∈ w.log ++ [note] →
      .sent w.owner[i] j t x ∈ w.log := by
    intro j t x hmem
    refine (List.mem_append.mp hmem).resolve_right fun hlast => ?_
    rcases hnote with ⟨_, rfl⟩ | rfl <;> simp at hlast
  have hcount : ackedCount (w.log ++ [note]) + failedCount (w.log ++ [note])
      = ackedCount w.log + failedCount w.log + 1 := by
    rw [ends_snoc]
    rcases hnote with ⟨_, rfl⟩ | rfl <;> rfl
  -- its slot was the only one that held it
  have hother : ∀ n j, w.Holds j n → note.packet ≠ n → i ≠ j := by
    rintro n j ⟨_, rfl⟩ hne rfl
    exact hne hpacket
  have hgone : ∀ j, w.Holds j w.owner[i] → i = j := fun j hj =>
    h.numbered.unique i j _ hholds hj
  obtain ⟨k, t₀, x₀, hmem₀⟩ := h.noted w.owner[i] (h.numbered.lt i _ hholds)
  refine h.note hT ⟨rfl, rfl, fun n hn j => (EngineRun.holds_release rfl rfl).trans
      ⟨And.right, fun hj => ⟨hother n j hj hn, hj⟩⟩, fun n hn j hj => put_ne (hother n j hj hn)⟩
    (h.numbered.keeps hkeeps) (fun n => ⟨Or.inl, fun hn => ?_⟩) ?_
    (fun j t x hmem => Or.inr ⟨fun k hk => ?_, ?_⟩) (fun j hj => ?_) ?_ hdue ?_
  · rcases hn with hn | rfl
    · exact hn
    · exact hpacket ▸ h.numbered.lt i _ hholds
  · exact ⟨k, t₀, x₀, hpacket ▸ List.mem_append_left _ hmem₀⟩
  · rw [hpacket] at hk
    obtain ⟨hne, hk⟩ := (EngineRun.holds_release rfl rfl).mp hk
    exact hne (hgone k hk)
  · rw [hpacket] at hmem ⊢
    have hzero : retirements w.log w.owner[i] = 0 := by
      rcases h.placed _ j t x (hsent j t x hmem) with ⟨_, hz⟩ | ⟨hno, _⟩
      · exact hz
      · exact absurd hholds (hno i)
    show retirements (w.log ++ [note]) w.owner[i] = 1
    rw [retirements_snoc, hzero, if_pos hret]
  · rw [hpacket] at hj
    obtain ⟨hne, hj⟩ := (EngineRun.holds_release rfl rfl).mp hj
    exact absurd (hgone j hj) hne
  · rw [hpacket]
    show resends (w.log ++ [note]) w.owner[i] ≤ m
    rw [resends_snoc, hre]
    exact h.resent _
  · have hks := keys_release Pending.seqId (x := { w.ctx.pending[i] with inUse := false }) hu rfl
    have hbal := h.balance
    dsimp only at hks
    unfold pendingSeqs at hbal ⊢
    rw [hks, Multiset.card_cons] at hbal
    dsimp only
    omega

/-- **A packet is sent again.** -/
theorem Booked.resend {m T now : Nat} {w : EngineRun} {i : Fin maxPending}
    (h : Booked m T w) (hT : T ≤ now) (hexp : w.ctx.pending[i].expired (clock now) = true)
    (hmore : ¬ w.ctx.cfg.maxRetries ≤ w.ctx.pending[i].retries) :
    Booked m now { w with
      ctx := { w.ctx with
        pending := w.ctx.pending.put i (resentPending w.ctx w.ctx.pending[i] (clock now)) }
      log := w.log ++ [.resent w.owner[i] now w.ctx.rttEstimateMs] } := by
  have hu := expired_inUse hexp
  have hholds : w.Holds i w.owner[i] := ⟨hu, rfl⟩
  obtain ⟨t, rtt, htimer, hle⟩ := h.timers i _ hholds
  have hmax : resends w.log w.owner[i] < m := by
    rw [← h.maxRetries, ← htimer.retries]
    exact Nat.lt_of_not_le hmore
  have hnew : (resentPending w.ctx w.ctx.pending[i] (clock now)).inUse = true := hu
  have hkeeps := EngineRun.resend_keeps hu (clock now)
    (w.log ++ [.resent w.owner[i] now w.ctx.rttEstimateMs])
  have hother : ∀ n j, w.Holds j n → w.owner[i] ≠ n → i ≠ j := by
    rintro n j ⟨_, rfl⟩ hne rfl
    exact hne rfl
  have hsent : ∀ j s x, .sent w.owner[i] j s x
      ∈ w.log ++ [.resent w.owner[i] now w.ctx.rttEstimateMs] →
      .sent w.owner[i] j s x ∈ w.log := by
    intro j s x hmem
    exact (List.mem_append.mp hmem).resolve_right (by simp)
  obtain ⟨k, t₀, x₀, hmem₀⟩ := h.noted w.owner[i] (h.numbered.lt i _ hholds)
  refine h.note hT ⟨rfl, rfl, fun n hn j => EngineRun.holds_replace hnew hu rfl,
      fun n hn j hj => put_ne (hother n j hj hn)⟩ (h.numbered.keeps hkeeps)
    (fun n => ⟨Or.inl, fun hn => ?_⟩) ⟨k, t₀, x₀, List.mem_append_left _ hmem₀⟩
    (fun j s x hmem => ?_) (fun j hj => ?_) ?_ (htimer.onTime (hle.trans hT) hexp) ?_
  · rcases hn with hn | rfl
    · exact hn
    · exact h.numbered.lt i _ hholds
  · have hret : retirements (w.log ++ [.resent w.owner[i] now w.ctx.rttEstimateMs]) w.owner[i]
        = retirements w.log w.owner[i] := retirements_snoc _ _ _
    refine (h.placed _ j s x (hsent j s x hmem)).imp (fun hp => ?_) fun hp => ?_
    · exact ⟨(EngineRun.holds_replace hnew hu rfl).mpr hp.1, hret.trans hp.2⟩
    · exact ⟨fun k hk => hp.1 k ((EngineRun.holds_replace hnew hu rfl).mp hk), hret.trans hp.2⟩
  · have hij : i = j := h.numbered.unique i j _ hholds ((EngineRun.holds_replace hnew hu rfl).mp hj)
    subst hij
    have hm : m ≤ 255 := by
      rw [← h.maxRetries]
      exact Nat.le_of_lt_succ w.ctx.cfg.maxRetries.isLt
    refine ⟨now, w.ctx.rttEstimateMs, ?_, le_rfl⟩
    show Timer _ _ (w.ctx.pending.put i _)[i] _ _
    rw [put_self]
    exact htimer.resent (by omega)
  · show resends (w.log ++ [.resent w.owner[i] now w.ctx.rttEstimateMs]) w.owner[i] ≤ m
    rw [resends_resent]
    exact hmax
  · have hks : keys Pending.inUse Pending.seqId (w.ctx.pending.put i
          (resentPending w.ctx w.ctx.pending[i] (clock now)))
        = keys Pending.inUse Pending.seqId w.ctx.pending := keys_replace hu hnew rfl
    have hends : ackedCount (w.log ++ [.resent w.owner[i] now w.ctx.rttEstimateMs])
        + failedCount (w.log ++ [.resent w.owner[i] now w.ctx.rttEstimateMs])
        = ackedCount w.log + failedCount w.log := ends_snoc w.log _
    have hbal := h.balance
    unfold pendingSeqs at hbal ⊢
    dsimp only
    rw [hks]
    omega

/-- **One call**, at a time no earlier than the last. -/
theorem Booked.step {m T : Nat} {w : EngineRun} (h : Booked m T w) (call : EngineCall)
    (hT : ∀ now ∈ call.time, T ≤ now) : Booked m (call.time.getD T) (w.step call) := by
  cases call with
  | send now => exact h.send (hT now rfl)
  | onAck a now =>
      have hT := hT now rfl
      show Booked m now (w.onAck a now)
      rcases w.onAck_cases a now with ⟨_, heq⟩ | ⟨i, hu, _, heq⟩ <;> rw [heq]
      · exact h.later hT
      · exact h.retired hT hu _ (Or.inl ⟨_, rfl⟩) trivial
  | poll now =>
      have hT := hT now rfl
      show Booked m now (w.poll now)
      rcases w.poll_cases now with ⟨heq, _⟩ | ⟨i, hexp, ⟨hmax, _, heq⟩ | ⟨hmax, _, heq⟩⟩ <;>
        rw [heq]
      · exact h.later hT
      · -- the retries are used up, so there were exactly `m` of them
        have hholds : w.Holds i w.owner[i] := ⟨expired_inUse hexp, rfl⟩
        obtain ⟨t, rtt, htimer, hle⟩ := h.timers i _ hholds
        have hfull : resends w.log w.owner[i] = m := by
          refine Nat.le_antisymm (h.resent _) ?_
          rw [← h.maxRetries, ← htimer.retries]
          exact hmax
        exact h.retired hT hholds.1 w.ctx.rttEstimateMs (Or.inr rfl)
          ⟨htimer.onTime (hle.trans hT) hexp, hfull⟩
      · exact h.resend hT hexp hmax
  | onData q =>
      rw [w.onData_eq]
      exact { h with numbered := h.numbered.keeps (w.onData_eq q ▸ w.onData_keeps q) }

/-! ## Every run -/

/-- **The calls of a run**, with times that do not decrease. -/
theorem Booked.run {m : Nat} (calls : List EngineCall) :
    ∀ {T : Nat} {w : EngineRun}, Booked m T w →
      (T :: calls.filterMap EngineCall.time).Pairwise (· ≤ ·) →
      ∃ T', Booked m T' (Runs.run EngineRun.step w calls) := by
  induction calls with
  | nil => exact fun h _ => ⟨_, h⟩
  | cons call calls ih =>
      intro T w h hclock
      cases htime : call.time with
      | none =>
          rw [List.filterMap_cons_none htime] at hclock
          have hstep := h.step call (by simp [htime])
          rw [htime] at hstep
          exact ih hstep hclock
      | some now =>
          rw [List.filterMap_cons_some htime] at hclock
          obtain ⟨hfirst, hrest⟩ := List.pairwise_cons.mp hclock
          have hT : T ≤ now := hfirst now (.head _)
          have hstep := h.step call (by simpa [htime] using hT)
          rw [htime] at hstep
          exact ih hstep hrest

/-- The sends of a run, with `m` retries allowed. -/
structure RetiredOnce (m : Nat) (w : EngineRun) : Prop where
  noted : ∀ n < w.sends, ∃ i now rtt, .sent n i now rtt ∈ w.log
  placed : ∀ n i now rtt, .sent n i now rtt ∈ w.log → InSlot w n i
  resent : ∀ n, resends w.log n ≤ m
  /-- The slot's timeout is what the last transmission made it. -/
  timeouts : ∀ i n, w.Holds i n → ∃ now rtt,
    (transmissions w.log n).getLast? = some (now, rtt)
      ∧ w.ctx.pending[i].timeoutMs.toNat = backoff (resends w.log n) rtt.toNat
  /-- Retransmissions and failures were on time, and a failure came after `m` retransmissions. -/
  history : ∀ k note, w.log[k]? = some note → NoteDue m (w.log.take k) note
  balance : w.sends = (pendingSeqs w.ctx).card + ackedCount w.log + failedCount w.log

/-- **Every send is retired once and on schedule.** After any calls at non-decreasing times a
packet sits in the slot it was sent from, or has left it by one ACK or one failure; it was sent
again at most `max_retries` times, each time when its timeout had run out. -/
theorem retired_once (cfg : Option ReliableConfig) (calls : List EngineCall)
    (hclock : (calls.filterMap EngineCall.time).Pairwise (· ≤ ·)) :
    RetiredOnce (reliableInit cfg).cfg.maxRetries.toNat (engineAfter cfg calls) := by
  have hfrom : (0 :: calls.filterMap EngineCall.time).Pairwise (· ≤ ·) :=
    List.pairwise_cons.mpr ⟨fun _ _ => Nat.zero_le _, hclock⟩
  obtain ⟨T, h⟩ := (booked_init cfg).run calls hfrom
  refine ⟨h.noted, h.placed, h.resent, fun i n hi => ?_, h.history, h.balance⟩
  obtain ⟨now, rtt, htimer, _⟩ := h.timers i n hi
  exact ⟨now, rtt, htimer.last, htimer.timeoutMs⟩

/-- Two packets with one retry each: the first fails, the second is acknowledged. -/
theorem retired_once_two :
    let calls := [EngineCall.send 0, .send 10, .poll 150, .onAck 1#16 200, .poll 350]
    let cfg : ReliableConfig := { initialRttMs := 100#16, maxRetries := 1#8, rttAlphaQ8 := 32#8 }
    (calls.filterMap EngineCall.time).Pairwise (· ≤ ·)
      ∧ (engineAfter (some cfg) calls).log =
        [.sent 0 0 0 100#16, .sent 1 1 10 100#16, .resent 0 150 100#16, .acked 1 200 190,
          .failed 0 350]
      ∧ RetiredOnce 1 (engineAfter (some cfg) calls) := by
  refine ⟨by decide, by decide +kernel, ?_⟩
  exact retired_once (some { initialRttMs := 100#16, maxRetries := 1#8, rttAlphaQ8 := 32#8 })
    [EngineCall.send 0, .send 10, .poll 150, .onAck 1#16 200, .poll 350] (by decide)

end Relinow
