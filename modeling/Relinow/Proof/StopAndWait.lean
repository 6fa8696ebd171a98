import Relinow.Proof.RttEstimate

/-!
# One packet at a time, over a link that loses nothing

Every transmission is answered by an ACK exactly `R` ms later, the engine is
polled in every millisecond, and a packet is sent only when none is pending. So
the first ACK of a packet reaches it `R` ms after its first transmission, unless
it was given up before. But the sample is measured from the last transmission. A
packet whose timeout runs out before the first ACK has arrived is sent again, and
the sample of that ACK comes out too small.

Whether the estimate then moves away from `R` is decided by how long ago the last
transmission was, and only by that: with an estimate above `R` no timeout runs
out early.
-/

namespace Relinow

open SlotTable Runs Settle

/-! ## The link -/

/-- The engine, the time, and the ACKs under way with the times they arrive at. -/
structure WaitLink where
  engine : EngineRun
  now : Nat
  flight : List (U16 × Nat)
  /-- Has the engine been polled in this millisecond? -/
  polled : Bool
  deriving DecidableEq, Repr

inductive WaitAction where
  | send
  | poll
  | ack (id : U16)
  | tick
  deriving DecidableEq, Repr

/-- The ACK that answers what the engine has just transmitted. -/
def answer (due : Nat) (r : TxResult) : List (U16 × Nat) :=
  match r.event with
  | .new | .retransmit => [(r.seqId, due)]
  | _ => []

namespace WaitLink

def start (cfg : Option ReliableConfig) : WaitLink :=
  { engine := EngineRun.start (reliableInit cfg), now := 0, flight := [], polled := false }

def step (R : Nat) (s : WaitLink) : WaitAction → WaitLink
  | .send =>
      { s with
        engine := s.engine.send s.now
        flight := answer (s.now + R) (reliableSend s.engine.ctx (clock s.now)).out ++ s.flight }
  | .poll =>
      { s with
        engine := s.engine.poll s.now
        flight := answer (s.now + R) (reliablePoll s.engine.ctx (clock s.now)).2 ++ s.flight
        polled := true }
  | .ack id =>
      { s with engine := s.engine.onAck id s.now, flight := s.flight.erase (id, s.now) }
  | .tick => { s with now := s.now + 1, polled := false }

/-- Stop and wait, polls in every millisecond, ACKs when they are due. -/
def Legal (s : WaitLink) : WaitAction → Prop
  | .send => ∀ i : Fin maxPending, s.engine.ctx.pending[i].inUse = false
  | .poll => True
  | .ack id => (id, s.now) ∈ s.flight
  | .tick => s.polled = true ∧ ∀ x ∈ s.flight, x.2 ≠ s.now

instance (s : WaitLink) (a : WaitAction) : Decidable (s.Legal a) := by
  cases a <;> unfold Legal <;> infer_instance

/-- How far the estimate is from `R`. -/
def error (R : Nat) (s : WaitLink) : Nat := Nat.dist s.engine.ctx.rttEstimateMs.toNat R

/-- A step that does not take the estimate away from `R`. -/
def NotAway (R : Nat) (s : WaitLink) (a : WaitAction) : Prop := (s.step R a).error R ≤ s.error R

/-- An ACK that matches comes no sooner after the last transmission than the estimate says, or than
the link allows; or there is nothing below the estimate. -/
def NotEarly (R : Nat) (s : WaitLink) : WaitAction → Prop
  | .ack id => ∀ i, findPendingSlot s.engine.ctx id = some i →
      s.engine.ctx.rttEstimateMs.toNat = 1
        ∨ min s.engine.ctx.rttEstimateMs.toNat R
          ≤ (clock s.now - s.engine.ctx.pending[i].lastSendMs).toNat
  | _ => True

instance (R : Nat) (s : WaitLink) (a : WaitAction) : Decidable (s.NotAway R a) :=
  inferInstanceAs (Decidable (_ ≤ _))

instance (R : Nat) (s : WaitLink) (a : WaitAction) : Decidable (s.NotEarly R a) := by
  cases a <;> unfold NotEarly <;> infer_instance

/-! ## What is under way -/

/-- An ACK of a packet before number `n`. It is due before 65536 packets can be past its own, each
of which takes at least one millisecond. -/
def Stale (R n base : Nat) (x : U16 × Nat) : Prop :=
  ∃ m < n, x.1 = BitVec.ofNat 16 m ∧ (R < 65535 → x.2 + (n - m) ≤ base + R + 1)

theorem Stale.mono {R n b b' : Nat} {x : U16 × Nat} (h : Stale R n b x) (hb : b ≤ b') :
    Stale R n b' x := by
  obtain ⟨m, hm, hid, hdue⟩ := h
  exact ⟨m, hm, hid, fun hR => (hdue hR).trans (by omega)⟩

/-- No packet is pending. -/
structure Idle (R : Nat) (s : WaitLink) : Prop where
  free : ∀ i : Fin maxPending, s.engine.ctx.pending[i].inUse = false
  stale : ∀ x ∈ s.flight, Stale R s.engine.sends s.now x

/-- The packet in slot `i` was first sent at `t₀` and last at `t₁`. -/
structure Waiting (R : Nat) (s : WaitLink) (i : Fin maxPending) (t₀ t₁ : Nat) : Prop where
  inUse : s.engine.ctx.pending[i].inUse = true
  only : ∀ j : Fin maxPending, s.engine.ctx.pending[j].inUse = true → j = i
  latest : s.engine.owner[i] + 1 = s.engine.sends
  order : t₀ ≤ t₁ ∧ t₁ ≤ s.now ∧ s.now ≤ t₀ + R
  lastSendMs : s.engine.ctx.pending[i].lastSendMs = clock t₁
  /-- The ACK of the first transmission is still to come. -/
  due : (s.engine.ctx.pending[i].seqId, t₀ + R) ∈ s.flight
  first : t₁ = t₀ → s.engine.ctx.pending[i].timeoutMs
    = computeTimeoutMs s.engine.ctx.rttEstimateMs 0#8
  again : t₁ ≠ t₀ → s.engine.ctx.rttEstimateMs.toNat ≤ R
  flight : ∀ x ∈ s.flight, Stale R s.engine.owner[i] t₀ x
    ∨ x.1 = s.engine.ctx.pending[i].seqId ∧ t₀ + R ≤ x.2 ∧ x.2 ≤ s.now + R

/-- The states of a run. -/
structure Running (R : Nat) (s : WaitLink) : Prop where
  numbered : SlotsNumbered s.engine
  timeouts : TimeoutsPos s.engine
  alpha : s.engine.ctx.cfg.rttAlphaQ8 ≠ 0#8
  estimate : 1 ≤ s.engine.ctx.rttEstimateMs.toNat
  phase : Idle R s ∨ ∃ i t₀ t₁, Waiting R s i t₀ t₁

section Phases

variable {R : Nat} {s : WaitLink} {i : Fin maxPending} {t₀ t₁ : Nat}

/-- The packet that waits has the id of its number. -/
theorem Waiting.seqId (h : Waiting R s i t₀ t₁) (hnum : SlotsNumbered s.engine) :
    s.engine.ctx.pending[i].seqId = BitVec.ofNat 16 s.engine.owner[i] :=
  hnum.seqId i _ ⟨h.inUse, rfl⟩

/-- **Which ACK matches**: one of the packet's own, and then it is the first. -/
theorem Waiting.matched (h : Waiting R s i t₀ t₁) (hnum : SlotsNumbered s.engine) (hR : R < 65535)
    (hmem : (s.engine.ctx.pending[i].seqId, s.now) ∈ s.flight) : s.now = t₀ + R := by
  obtain ⟨h01, h1, hnow⟩ := h.order
  rcases h.flight _ hmem with ⟨m, hm, hid, hdue⟩ | ⟨_, hown, _⟩
  · -- an older packet with this id is at least 65536 packets back
    have hwrap := congrArg BitVec.toNat ((h.seqId hnum).symm.trans hid)
    rw [BitVec.toNat_ofNat, BitVec.toNat_ofNat] at hwrap
    have := hdue hR
    dsimp only at this
    omega
  · exact Nat.le_antisymm hnow hown

/-- **What a matching ACK measures**: no more than `R`, and exactly that from above `R`. -/
theorem Waiting.elapsed (h : Waiting R s i t₀ t₁) (hnum : SlotsNumbered s.engine) (hR' : R ≤ 65535)
    (hmem : (s.engine.ctx.pending[i].seqId, s.now) ∈ s.flight) :
    (clock s.now - s.engine.ctx.pending[i].lastSendMs).toNat ≤ R
      ∧ (R < s.engine.ctx.rttEstimateMs.toNat →
        (clock s.now - s.engine.ctx.pending[i].lastSendMs).toNat = R) := by
  obtain ⟨h01, h1, hnow⟩ := h.order
  rw [h.lastSendMs]
  refine ⟨(elapsed_le h1).trans (by omega), fun habove => ?_⟩
  have hR : R < 65535 := by
    have hr := s.engine.ctx.rttEstimateMs.isLt
    omega
  -- the packet was not sent again, and the ACK is that of its only transmission
  have hsame : t₁ = t₀ := by
    by_contra hne
    exact absurd (h.again hne) (Nat.not_le.mpr habove)
  have hfirst := h.matched hnum hR hmem
  rw [elapsed_eq h1 (by omega)]
  omega

/-- **The packet is retired**, some time after it was sent: all that is under way is stale. -/
theorem Waiting.retired (h : Waiting R s i t₀ t₁) (hnum : SlotsNumbered s.engine)
    (hlater : R < 65535 → t₀ + 1 ≤ s.now) {s' : WaitLink} {slot : Pending}
    (hu : slot.inUse = false) (hpend : s'.engine.ctx.pending = s.engine.ctx.pending.put i slot)
    (hsends : s'.engine.sends = s.engine.sends) (hnow : s'.now = s.now)
    (hfl : s'.flight ⊆ s.flight) : Idle R s' := by
  have hlatest := h.latest
  refine ⟨fun j => ?_, fun x hx => ?_⟩
  · rw [hpend, get_put]
    split
    · exact hu
    · rename_i hne
      exact Bool.eq_false_iff.mpr fun hj => hne (h.only j hj).symm
  · rw [hsends, hnow]
    rcases h.flight x (hfl hx) with ⟨m, hm, hid, hdue⟩ | ⟨hid, _, hle⟩
    · refine ⟨m, by omega, hid, fun hR => ?_⟩
      have := hdue hR
      have := hlater hR
      omega
    · exact ⟨s.engine.owner[i], by omega, hid.trans (h.seqId hnum), fun _ => by omega⟩

/-- **A timeout that runs out** does so after the packet was sent, and not with an estimate above
`R`. -/
theorem Waiting.expired (h : Waiting R s i t₀ t₁) (htime : TimeoutsPos s.engine)
    (hexp : s.engine.ctx.pending[i].expired (clock s.now) = true) :
    t₀ + 1 ≤ s.now ∧ s.engine.ctx.rttEstimateMs.toNat ≤ R := by
  obtain ⟨h01, h1, hnow⟩ := h.order
  have hpos := htime i h.inUse
  have hel := elapsed_le h1
  unfold Pending.expired at hexp
  have hout := of_decide_eq_true (Bool.and_eq_true _ _ ▸ hexp).2
  rw [h.lastSendMs] at hout
  refine ⟨by omega, ?_⟩
  by_cases hsame : t₁ = t₀
  · -- the first timeout is at least the estimate
    rw [h.first hsame, computeTimeoutMs_toNat] at hout
    have hr := s.engine.ctx.rttEstimateMs.isLt
    unfold backoff at hout
    rw [show (0#8).toNat = 0 from rfl, if_pos rfl] at hout
    omega
  · exact h.again hsame

end Phases

/-! ## One step -/

theorem Running.tick {R : Nat} {s : WaitLink} (h : Running R s) (hl : s.Legal .tick) :
    Running R (s.step R .tick) := by
  refine { h with phase := ?_ }
  rcases h.phase with hidle | ⟨i, t₀, t₁, hw⟩
  · exact Or.inl ⟨hidle.free, fun x hx => (hidle.stale x hx).mono (Nat.le_succ _)⟩
  · obtain ⟨h01, h1, hnow⟩ := hw.order
    have hdue := hl.2 _ hw.due
    refine Or.inr ⟨i, t₀, t₁, { hw with order := ⟨h01, ?_, ?_⟩, flight := fun x hx => ?_ }⟩
    · exact Nat.le_succ_of_le h1
    · exact Nat.lt_of_le_of_ne hnow (Ne.symm hdue)
    · exact (hw.flight x hx).imp_right fun ho => ⟨ho.1, ho.2.1, ho.2.2.trans (by
        show s.now + R ≤ s.now + 1 + R
        omega)⟩

theorem Running.send {R : Nat} {s : WaitLink} (h : Running R s) (hl : s.Legal .send) :
    Running R (s.step R .send) := by
  have hnone : pendingSeqs s.engine.ctx = 0 := keys_of_none _ hl
  have hidle : Idle R s := by
    rcases h.phase with hidle | ⟨i, _, _, hw⟩
    · exact hidle
    · exact absurd hw.inUse (by rw [hl i]; exact Bool.false_ne_true)
  have hans : answer (s.now + R) (reliableSend s.engine.ctx (clock s.now)).out
      = [(s.engine.ctx.nextTxSeq, s.now + R)] := by
    rcases reliableSend_cases s.engine.ctx (clock s.now) with ⟨_, hfull⟩ | ⟨_, hsent, _⟩
    · rw [hnone] at hfull
      exact absurd hfull (by decide)
    · rw [hsent]
      rfl
  have hnum := h.numbered.send s.now
  have htime := h.timeouts.step (.send s.now)
  show Running R { s with engine := s.engine.send s.now, flight := _ ++ s.flight }
  rw [hans]
  rcases s.engine.send_cases s.now with ⟨hfull, _⟩ | ⟨i, _, heq⟩
  · rw [hnone] at hfull
    exact absurd hfull (by decide)
  · change TimeoutsPos (s.engine.send s.now) at htime
    rw [heq] at hnum htime ⊢
    refine ⟨hnum, htime, h.alpha, h.estimate, Or.inr ⟨i, s.now, s.now, ?_⟩⟩
    have hslot : (s.engine.ctx.pending.put i (newPending s.engine.ctx (clock s.now)))[i]
        = newPending s.engine.ctx (clock s.now) := put_self _ _ _
    have howner : (s.engine.owner.put i s.engine.sends)[i] = s.engine.sends := put_self _ _ _
    refine ⟨?_, fun j hj => ?_, ?_, ⟨le_rfl, le_rfl, Nat.le_add_right _ _⟩, ?_, ?_, fun _ => ?_,
      fun hne => absurd rfl hne, fun x hx => ?_⟩
    · exact congrArg Pending.inUse hslot
    · by_contra hne
      rw [put_ne (Ne.symm hne)] at hj
      rw [hl j] at hj
      exact Bool.noConfusion hj
    · exact congrArg Nat.succ howner
    · exact congrArg Pending.lastSendMs hslot
    · dsimp only
      rw [hslot]
      exact List.mem_cons_self
    · exact congrArg Pending.timeoutMs hslot
    · dsimp only
      rw [hslot, howner]
      rcases List.mem_cons.mp hx with rfl | hx
      · exact Or.inr ⟨rfl, le_rfl, le_rfl⟩
      · exact Or.inl (hidle.stale x hx)

theorem Running.poll {R : Nat} {s : WaitLink} (h : Running R s) :
    Running R (s.step R .poll) := by
  have hnum := h.numbered.keeps (s.engine.poll_keeps s.now)
  have htime : TimeoutsPos (s.engine.poll s.now) := h.timeouts.step (.poll s.now)
  show Running R { s with engine := s.engine.poll s.now, flight := _ ++ s.flight, polled := true }
  rcases s.engine.poll_cases s.now with
    ⟨heq, hrep, _⟩ | ⟨j, hexp, ⟨_, hrep, heq⟩ | ⟨_, hrep, heq⟩⟩ <;>
    rw [heq] at hnum htime ⊢ <;> rw [hrep] <;> refine ⟨hnum, htime, h.alpha, h.estimate, ?_⟩
  · exact h.phase.imp (fun hi => ⟨hi.free, hi.stale⟩)
      fun ⟨i, t₀, t₁, hw⟩ => ⟨i, t₀, t₁, { hw with }⟩
  · rcases h.phase with hidle | ⟨i, t₀, t₁, hw⟩
    · exact absurd (expired_inUse hexp) (by rw [hidle.free j]; exact Bool.false_ne_true)
    · obtain rfl := hw.only j (expired_inUse hexp)
      obtain ⟨hlater, _⟩ := hw.expired h.timeouts hexp
      exact Or.inl (hw.retired h.numbered (fun _ => hlater) rfl rfl rfl rfl
        (List.Subset.refl _))
  · rcases h.phase with hidle | ⟨i, t₀, t₁, hw⟩
    · exact absurd (expired_inUse hexp) (by rw [hidle.free j]; exact Bool.false_ne_true)
    · obtain rfl := hw.only j (expired_inUse hexp)
      obtain ⟨hlater, hle⟩ := hw.expired h.timeouts hexp
      obtain ⟨_, _, hnow⟩ := hw.order
      have hslot : (s.engine.ctx.pending.put j
          (resentPending s.engine.ctx s.engine.ctx.pending[j] (clock s.now)))[j]
        = resentPending s.engine.ctx s.engine.ctx.pending[j] (clock s.now) := put_self _ _ _
      have hid := congrArg Pending.seqId hslot
      refine Or.inr ⟨j, t₀, s.now, ?_, fun k hk => ?_, hw.latest,
        ⟨Nat.le_of_succ_le hlater, le_rfl, hnow⟩, congrArg Pending.lastSendMs hslot, ?_,
        fun hsame => ?_, fun _ => hle, fun x hx => ?_⟩
      · exact (congrArg Pending.inUse hslot).trans hw.inUse
      · by_contra hne
        rw [put_ne (Ne.symm hne)] at hk
        exact hne (hw.only k hk)
      · exact List.mem_cons_of_mem _ (hid ▸ hw.due)
      · omega
      · rcases List.mem_cons.mp hx with rfl | hx
        · exact Or.inr ⟨hid.symm, Nat.add_le_add_right (Nat.le_of_succ_le hlater) _, le_rfl⟩
        · rw [hid]
          exact hw.flight x hx

theorem Running.ack {R : Nat} {s : WaitLink} (h : Running R s) (hR : 1 ≤ R) {id : U16}
    (hl : s.Legal (.ack id)) : Running R (s.step R (.ack id)) := by
  have hnum := h.numbered.keeps (s.engine.onAck_keeps id s.now)
  have htime : TimeoutsPos (s.engine.onAck id s.now) := h.timeouts.step (.onAck id s.now)
  show Running R { s with
    engine := s.engine.onAck id s.now, flight := s.flight.erase (id, s.now) }
  rcases s.engine.onAck_cases id s.now with ⟨hno, heq⟩ | ⟨j, hu, hid, heq⟩ <;>
    rw [heq] at hnum htime ⊢
  · refine ⟨hnum, htime, h.alpha, h.estimate, ?_⟩
    rcases h.phase with hidle | ⟨i, t₀, t₁, hw⟩
    · exact Or.inl ⟨hidle.free, fun x hx => hidle.stale x (List.mem_of_mem_erase hx)⟩
    · -- the ACK was not for the packet that waits
      have hother : (s.engine.ctx.pending[i].seqId, t₀ + R) ≠ (id, s.now) := by
        intro he
        rw [← (Prod.mk.inj he).1] at hno
        exact hno (mem_keys.mpr ⟨i, hw.inUse, rfl⟩)
      exact Or.inr ⟨i, t₀, t₁, { hw with
        due := (List.mem_erase_of_ne hother).mpr hw.due
        flight := fun x hx => hw.flight x (List.mem_of_mem_erase hx) }⟩
  · refine ⟨hnum, htime, h.alpha, rttUpdate_pos _ _ _, ?_⟩
    rcases h.phase with hidle | ⟨i, t₀, t₁, hw⟩
    · exact absurd hu (by rw [hidle.free j]; exact Bool.false_ne_true)
    · obtain rfl := hw.only j hu
      have hlater : R < 65535 → t₀ + 1 ≤ s.now := fun hR' => by
        have := hw.matched h.numbered hR' (hid ▸ hl)
        omega
      exact Or.inl (hw.retired h.numbered hlater rfl rfl rfl rfl List.erase_subset)

theorem Running.step {R : Nat} {s : WaitLink} (h : Running R s) (hR : 1 ≤ R) {a : WaitAction}
    (hl : s.Legal a) : Running R (s.step R a) := by
  cases a with
  | send => exact h.send hl
  | poll => exact h.poll
  | ack id => exact h.ack hR hl
  | tick => exact h.tick hl

/-! ## The estimate -/

/-- A smaller sample makes a smaller estimate. -/
theorem rttUpdate_lt {alpha : U8} {rtt : U16} {sample : Nat} (halpha : alpha ≠ 0#8)
    (hrtt : 2 ≤ rtt.toNat) (hs : capped sample < rtt.toNat) :
    (rttUpdate alpha rtt sample).toNat < rtt.toNat := by
  have ha : alpha.toNat ≤ 256 := le_of_lt alpha.isLt
  have hpos : 0 < alpha.toNat :=
    Nat.pos_of_ne_zero fun h0 => halpha (BitVec.eq_of_toNat_eq h0)
  have hnew : alpha.toNat * capped sample < alpha.toNat * rtt.toNat :=
    Nat.mul_lt_mul_of_pos_left hs hpos
  have hsum : (256 - alpha.toNat) * rtt.toNat + alpha.toNat * rtt.toNat = 256 * rtt.toNat := by
    rw [← Nat.add_mul, Nat.sub_add_cancel ha]
  rw [rttUpdate_toNat]
  omega

/-- **When an update takes the estimate away**, with a sample of at most `R`: when it falls from
below `R`. -/
theorem rttUpdate_notAway {alpha : U8} {rtt : U16} {sample R : Nat} (halpha : alpha ≠ 0#8)
    (hrtt : 1 ≤ rtt.toNat) (hR : 1 ≤ R) (hR' : R ≤ 65535) (hs : sample ≤ R)
    (habove : R < rtt.toNat → sample = R) :
    Nat.dist (rttUpdate alpha rtt sample).toNat R ≤ Nat.dist rtt.toNat R
      ↔ rtt.toNat = 1 ∨ min rtt.toNat R ≤ sample := by
  have hcap : capped sample = sample := capped_of_le (hs.trans hR')
  have hpos := rttUpdate_pos alpha rtt sample
  unfold Nat.dist
  by_cases hone : rtt.toNat = 1
  · have hle : (rttUpdate alpha rtt sample).toNat ≤ R :=
      rttUpdate_le hR (hone ▸ hR) (hcap.symm ▸ hs)
    omega
  · rcases Nat.lt_or_ge sample rtt.toNat with hlt | hge
    · rcases Nat.lt_or_ge R rtt.toNat with hgt | hle
      · -- from above, with the true sample
        obtain rfl := habove hgt
        have hdown := (rttUpdate_toward alpha hR hR' hrtt).2 hgt.le
        omega
      · have hfall : (rttUpdate alpha rtt sample).toNat < rtt.toNat :=
          rttUpdate_lt halpha (by omega) (hcap.symm ▸ hlt)
        omega
    · have hup := (rttUpdate_toward alpha (hrtt.trans hge) (hs.trans hR') hrtt).1 hge
      omega

/-- **One step**: only an early ACK takes the estimate away. -/
theorem Running.notAway {R : Nat} {s : WaitLink} (h : Running R s) (hR : 1 ≤ R) (hR' : R ≤ 65535)
    {a : WaitAction} (hl : s.Legal a) : s.NotAway R a ↔ s.NotEarly R a := by
  have hsame : ∀ s' : WaitLink, s'.engine.ctx.rttEstimateMs = s.engine.ctx.rttEstimateMs →
      s'.error R ≤ s.error R := fun s' he => by
    unfold error
    rw [he]
  cases a with
  | send =>
      refine iff_of_true (hsame _ ?_) trivial
      show (s.engine.send s.now).ctx.rttEstimateMs = _
      rcases s.engine.send_cases s.now with ⟨_, heq⟩ | ⟨_, _, heq⟩ <;> rw [heq]
  | poll =>
      refine iff_of_true (hsame _ ?_) trivial
      show (s.engine.poll s.now).ctx.rttEstimateMs = _
      rcases s.engine.poll_cases s.now with
        ⟨heq, _⟩ | ⟨_, _, ⟨_, _, heq⟩ | ⟨_, _, heq⟩⟩ <;> rw [heq]
  | tick => exact iff_of_true (hsame _ rfl) trivial
  | ack id =>
      show Nat.dist (s.engine.onAck id s.now).ctx.rttEstimateMs.toNat R ≤ _ ↔ ∀ _, _ → _
      rw [s.engine.onAck_ctx]
      unfold reliableOnAck
      cases hf : findPendingSlot s.engine.ctx id with
      | none => exact iff_of_true le_rfl fun _ hno => by simp at hno
      | some j =>
          obtain ⟨hu, hid⟩ := keyIdx_some Pending.inUse Pending.seqId hf
          rcases h.phase with hidle | ⟨i, t₀, t₁, hw⟩
          · exact absurd hu (by rw [hidle.free j]; exact Bool.false_ne_true)
          · obtain rfl := hw.only j hu
            obtain ⟨hle, hexact⟩ := hw.elapsed h.numbered hR' (hid ▸ hl)
            have hiff := rttUpdate_notAway h.alpha h.estimate hR hR' hle hexact
            exact hiff.trans ⟨fun hn k hk => Option.some.inj hk ▸ hn, fun hn => hn j rfl⟩

/--
**When the estimate stays its course.** On a link that loses nothing and answers
every transmission `R` ms later, no step of a stop-and-wait run takes the estimate
away from `R` if and only if no matching ACK is early: it comes no sooner after the
packet's last transmission than the estimate, or than `R`; or the estimate is 1.
-/
theorem rtt_notAway_iff (cfg : Option ReliableConfig) {R : Nat} (hR : 1 ≤ R) (hR' : R ≤ 65535)
    {actions : List WaitAction} (hlegal : Along (step R) Legal (start cfg) actions) :
    Along (step R) (NotAway R) (start cfg) actions
      ↔ Along (step R) (NotEarly R) (start cfg) actions := by
  have hinit : Running R (start cfg) := by
    have hfree : ∀ i : Fin maxPending, (start cfg).engine.ctx.pending[i].inUse = false := by
      intro i
      by_contra hu
      exact holds_start _ (pendingSeqs_init cfg) i _ ⟨Bool.eq_true_of_not_eq_false hu, rfl⟩
    exact ⟨numbered_init cfg, timeoutsPos_after cfg [], reliableInit_alpha cfg,
      reliableInit_rtt_pos cfg, Or.inl ⟨hfree, fun _ hx => absurd hx List.not_mem_nil⟩⟩
  exact Along.congr (along_of_invariant (fun _ _ h hl => h.step hR hl)
    (fun _ _ h hl => h.notAway hR hR' hl) hinit hlegal)

/-- A packet that waits for its ACK through `n` milliseconds. -/
def exchange (n : Nat) : List WaitAction :=
  .send :: (List.replicate n [WaitAction.poll, .tick]).flatten ++ [.ack 0#16]

/-- From 3, with a true round trip of 2. -/
theorem rtt_notAway_two :
    Along (step 2) (NotAway 2)
      (start (some { maxRetries := 5#8, initialRttMs := 3#16, rttAlphaQ8 := 32#8 })) (exchange 2) :=
  (rtt_notAway_iff (some { maxRetries := 5#8, initialRttMs := 3#16, rttAlphaQ8 := 32#8 })
    (by decide) (by decide) (by decide +kernel)).mpr (by decide +kernel)

/-- From 2, with a true round trip of 4: the packet is sent again after 3 ms, the ACK of the first
transmission gives a sample of 1, and the estimate falls to 1. -/
theorem rtt_away :
    ¬ ∀ (cfg : ReliableConfig) (R : Nat) (actions : List WaitAction), cfg.initialRttMs ≠ 0#16 →
      cfg.rttAlphaQ8 ≠ 0#8 → 1 ≤ R → R ≤ 65535 →
      Along (step R) Legal (start (some cfg)) actions →
      Along (step R) (NotAway R) (start (some cfg)) actions := by
  intro h
  have haway := h { maxRetries := 5#8, initialRttMs := 2#16, rttAlphaQ8 := 32#8 } 4 (exchange 4)
    (by decide) (by decide) (by decide) (by decide) (by decide +kernel)
  exact absurd haway (by decide +kernel)

end WaitLink

end Relinow
