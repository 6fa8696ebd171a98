import Relinow.Proof.EngineRun
import Relinow.Lib.Settle
import Mathlib.Data.Nat.Dist

/-!
# The round-trip estimate

Every matched ACK mixes one sample into the estimate, in fixed point with eight
fraction bits. The estimate of a context is therefore the fold of the samples it
has been given, whatever else was called in between, and what is to be said of it
is said of the fold: it stays between the samples, and under constant samples it
goes towards them and settles.

The model takes the products in the naturals. `rttUpdate32` is the same
computation in the 32-bit registers of the source, and gives the same estimate.
-/

namespace Relinow

open SlotTable Runs Settle

/-! ## One update -/

/-- **No product or sum of an update leaves 32 bits**, and the quotient fits in 16. -/
theorem rttUpdate_fits (alpha : U8) (rtt : U16) (sample : Nat) :
    (256 - alpha.toNat) * rtt.toNat ≤ 2 ^ 32 - 1
      ∧ alpha.toNat * capped sample ≤ 2 ^ 32 - 1
      ∧ (256 - alpha.toNat) * rtt.toNat + alpha.toNat * capped sample ≤ 2 ^ 32 - 1
      ∧ ((256 - alpha.toNat) * rtt.toNat + alpha.toNat * capped sample) / 256 ≤ 65535 := by
  have hrtt : rtt.toNat ≤ 65535 := Nat.le_of_lt_succ rtt.isLt
  have ha : alpha.toNat ≤ 256 := le_of_lt alpha.isLt
  have hold : (256 - alpha.toNat) * rtt.toNat ≤ (256 - alpha.toNat) * 65535 :=
    Nat.mul_le_mul_left _ hrtt
  have hnew : alpha.toNat * capped sample ≤ alpha.toNat * 65535 :=
    Nat.mul_le_mul_left _ (capped_le sample)
  omega

theorem rttUpdate_toNat (alpha : U8) (rtt : U16) (sample : Nat) :
    (rttUpdate alpha rtt sample).toNat
      = max 1 (((256 - alpha.toNat) * rtt.toNat + alpha.toNat * capped sample) / 256) := by
  obtain ⟨_, _, _, hfits⟩ := rttUpdate_fits alpha rtt sample
  have hval : (BitVec.ofNat 16
      (((256 - alpha.toNat) * rtt.toNat + alpha.toNat * capped sample) / 256)).toNat
      = ((256 - alpha.toNat) * rtt.toNat + alpha.toNat * capped sample) / 256 := by
    rw [BitVec.toNat_ofNat]
    exact Nat.mod_eq_of_lt (by omega)
  have hdef : rttUpdate alpha rtt sample
      = if BitVec.ofNat 16
          (((256 - alpha.toNat) * rtt.toNat + alpha.toNat * capped sample) / 256) == 0#16 then 1#16
        else BitVec.ofNat 16
          (((256 - alpha.toNat) * rtt.toNat + alpha.toNat * capped sample) / 256) := rfl
  rw [hdef]
  split
  · rename_i hzero
    rw [beq_iff_eq.mp hzero] at hval
    rw [← hval]
    rfl
  · rename_i hne
    rw [hval]
    have hpos : ((256 - alpha.toNat) * rtt.toNat + alpha.toNat * capped sample) / 256 ≠ 0 := by
      intro h0
      rw [h0] at hne
      exact hne rfl
    omega

/-- The update as the source computes it, in 32-bit registers. -/
def rttUpdate32 (alpha : U8) (rtt : U16) (sample : U32) : U16 :=
  let sample := if 65535#32 < sample then 65535#32 else sample
  let oldPart := (256#32 - alpha.setWidth 32) * rtt.setWidth 32
  let newPart := alpha.setWidth 32 * sample
  let rtt := ((oldPart + newPart) / 256#32).setWidth 16
  if rtt == 0#16 then 1#16 else rtt

/-- **The 32-bit arithmetic is exact.** -/
theorem rttUpdate32_eq (alpha : U8) (rtt : U16) (sample : U32) :
    rttUpdate32 alpha rtt sample = rttUpdate alpha rtt sample.toNat := by
  obtain ⟨hold, hnew, hsum, _⟩ := rttUpdate_fits alpha rtt sample.toNat
  have ha := alpha.isLt
  have hr := rtt.isLt
  have hcap : (if 65535#32 < sample then 65535#32 else sample).toNat = capped sample.toNat := by
    unfold capped
    rw [apply_ite BitVec.toNat]
    exact if_congr BitVec.lt_def rfl rfl
  -- each operation of the source is the operation on the naturals
  have hweight : (256#32 - alpha.setWidth 32).toNat = 256 - alpha.toNat := by
    rw [BitVec.toNat_sub_of_le (by rw [BitVec.le_def, BitVec.toNat_setWidth]; simp; omega),
      BitVec.toNat_setWidth, Nat.mod_eq_of_lt (by omega)]
    rfl
  have hold' : ((256#32 - alpha.setWidth 32) * rtt.setWidth 32).toNat
      = (256 - alpha.toNat) * rtt.toNat := by
    rw [BitVec.toNat_mul, hweight, BitVec.toNat_setWidth,
      Nat.mod_eq_of_lt (show rtt.toNat < 2 ^ 32 by omega), Nat.mod_eq_of_lt (by omega)]
  have hnew' : (alpha.setWidth 32 * if 65535#32 < sample then 65535#32 else sample).toNat
      = alpha.toNat * capped sample.toNat := by
    rw [BitVec.toNat_mul, hcap, BitVec.toNat_setWidth,
      Nat.mod_eq_of_lt (show alpha.toNat < 2 ^ 32 by omega), Nat.mod_eq_of_lt (by omega)]
  have hsum' : ((256#32 - alpha.setWidth 32) * rtt.setWidth 32
      + alpha.setWidth 32 * if 65535#32 < sample then 65535#32 else sample).toNat
      = (256 - alpha.toNat) * rtt.toNat + alpha.toNat * capped sample.toNat := by
    rw [BitVec.toNat_add, hold', hnew', Nat.mod_eq_of_lt (by omega)]
  have hquot : (((256#32 - alpha.setWidth 32) * rtt.setWidth 32
      + alpha.setWidth 32 * if 65535#32 < sample then 65535#32 else sample) / 256#32).setWidth 16
      = BitVec.ofNat 16
        (((256 - alpha.toNat) * rtt.toNat + alpha.toNat * capped sample.toNat) / 256) := by
    rw [← BitVec.ofNat_toNat, BitVec.toNat_udiv, hsum']
    rfl
  unfold rttUpdate32 rttUpdate
  dsimp only
  rw [hquot]
  rfl

/-- An update stays above what bounds the estimate and the sample from below. -/
theorem le_rttUpdate {alpha : U8} {rtt : U16} {sample lo : Nat} (he : lo ≤ rtt.toNat)
    (hs : lo ≤ capped sample) : lo ≤ (rttUpdate alpha rtt sample).toNat := by
  have ha : alpha.toNat ≤ 256 := le_of_lt alpha.isLt
  have hold : (256 - alpha.toNat) * lo ≤ (256 - alpha.toNat) * rtt.toNat :=
    Nat.mul_le_mul_left _ he
  have hnew : alpha.toNat * lo ≤ alpha.toNat * capped sample := Nat.mul_le_mul_left _ hs
  have hsum : (256 - alpha.toNat) * lo + alpha.toNat * lo = 256 * lo := by
    rw [← Nat.add_mul, Nat.sub_add_cancel ha]
  rw [rttUpdate_toNat]
  omega

/-- An update stays below what bounds the estimate and the sample from above. -/
theorem rttUpdate_le {alpha : U8} {rtt : U16} {sample hi : Nat} (hpos : 1 ≤ hi)
    (he : rtt.toNat ≤ hi) (hs : capped sample ≤ hi) : (rttUpdate alpha rtt sample).toNat ≤ hi := by
  have ha : alpha.toNat ≤ 256 := le_of_lt alpha.isLt
  have hold : (256 - alpha.toNat) * rtt.toNat ≤ (256 - alpha.toNat) * hi :=
    Nat.mul_le_mul_left _ he
  have hnew : alpha.toNat * capped sample ≤ alpha.toNat * hi := Nat.mul_le_mul_left _ hs
  have hsum : (256 - alpha.toNat) * hi + alpha.toNat * hi = 256 * hi := by
    rw [← Nat.add_mul, Nat.sub_add_cancel ha]
  rw [rttUpdate_toNat]
  omega

theorem rttUpdate_pos (alpha : U8) (rtt : U16) (sample : Nat) :
    1 ≤ (rttUpdate alpha rtt sample).toNat := by
  rw [rttUpdate_toNat]
  exact Nat.le_max_left _ _

/-! ## Timeouts -/

/-- The timeout after `k` retransmissions: 1.5, 2 or 3 times the estimate, rounded down, and kept
within `1..65535`. -/
def backoff (k rtt : Nat) : Nat :=
  max 1 (min 65535 (if k = 0 then rtt * 3 / 2 else if k = 1 then rtt * 2 else rtt * 3))

theorem computeTimeoutMs_toNat (rtt : U16) (k : U8) :
    (computeTimeoutMs rtt k).toNat = backoff k.toNat rtt.toNat := by
  have hindex : ∀ n : Nat, n < 2 ^ 8 → ((k == BitVec.ofNat 8 n) = true ↔ k.toNat = n) := by
    intro n hn
    rw [beq_iff_eq]
    refine ⟨fun h => ?_, fun h => BitVec.eq_of_toNat_eq ?_⟩
    · rw [h, BitVec.toNat_ofNat, Nat.mod_eq_of_lt hn]
    · rw [h, BitVec.toNat_ofNat, Nat.mod_eq_of_lt hn]
  have hmul : (if k == 0#8 then rtt.toNat * 3 / 2 else if k == 1#8 then rtt.toNat * 2
        else rtt.toNat * 3)
      = if k.toNat = 0 then rtt.toNat * 3 / 2 else if k.toNat = 1 then rtt.toNat * 2
        else rtt.toNat * 3 :=
    ite_congr (propext (hindex 0 (by decide))) (fun _ => rfl) fun _ =>
      ite_congr (propext (hindex 1 (by decide))) (fun _ => rfl) fun _ => rfl
  unfold computeTimeoutMs backoff
  rw [hmul]
  generalize (if k.toNat = 0 then rtt.toNat * 3 / 2 else if k.toNat = 1 then rtt.toNat * 2
    else rtt.toNat * 3) = t
  dsimp only
  rw [BitVec.toNat_ofNat]
  -- the two clamps, in the order the source makes them
  rcases Nat.eq_zero_or_pos t with h0 | hpos
  · rw [h0]
    rfl
  · rw [if_neg (Nat.ne_of_gt hpos)]
    split <;> omega

/-- **The timeout grows with the retry index and with the estimate.** -/
theorem backoff_mono {k k' rtt rtt' : Nat} (hk : k ≤ k') (hr : rtt ≤ rtt') :
    backoff k rtt ≤ backoff k' rtt' := by
  have hmul : (if k = 0 then rtt * 3 / 2 else if k = 1 then rtt * 2 else rtt * 3)
      ≤ if k' = 0 then rtt' * 3 / 2 else if k' = 1 then rtt' * 2 else rtt' * 3 := by
    split_ifs <;> omega
  exact max_le_max le_rfl (min_le_min le_rfl hmul)

theorem backoff_range (k rtt : Nat) : 1 ≤ backoff k rtt ∧ backoff k rtt ≤ 65535 := by
  unfold backoff
  omega

/-! ## The estimate of a run -/

/-- The samples of a log, in order. -/
def samples (log : List Note) : List Nat :=
  log.filterMap fun
    | .acked _ _ sample => some sample
    | _ => none

/-- What a call or a run does to the estimate: it takes the samples it logs. -/
structure Takes (w w' : EngineRun) (xs : List Nat) : Prop where
  cfg : w'.ctx.cfg = w.ctx.cfg
  samples : samples w'.log = samples w.log ++ xs
  estimate : w'.ctx.rttEstimateMs = xs.foldl (rttUpdate w.ctx.cfg.rttAlphaQ8) w.ctx.rttEstimateMs
  capped : ∀ x ∈ xs, x ≤ 65535

theorem Takes.nothing {w w' : EngineRun} (hcfg : w'.ctx.cfg = w.ctx.cfg)
    (hlog : Relinow.samples w'.log = Relinow.samples w.log)
    (hest : w'.ctx.rttEstimateMs = w.ctx.rttEstimateMs) : Takes w w' [] :=
  ⟨hcfg, by rw [hlog, List.append_nil], hest, fun _ h => absurd h List.not_mem_nil⟩

theorem Takes.trans {a b d : EngineRun} {xs ys : List Nat} (h : Takes a b xs) (h' : Takes b d ys) :
    Takes a d (xs ++ ys) where
  cfg := h'.cfg.trans h.cfg
  samples := by rw [h'.samples, h.samples, List.append_assoc]
  estimate := by rw [h'.estimate, h.cfg, h.estimate, List.foldl_append]
  capped x hx := (List.mem_append.mp hx).elim (h.capped x) (h'.capped x)

theorem samples_snoc_other (log : List Note) {note : Note}
    (h : ∀ n now x, note ≠ .acked n now x) : samples (log ++ [note]) = samples log := by
  unfold samples
  rw [List.filterMap_append]
  cases note with
  | acked n now x => exact absurd rfl (h n now x)
  | _ => exact List.append_nil _

/-- **A call takes one sample**, when it is an ACK that names a pending packet. -/
theorem step_takes (w : EngineRun) (call : EngineCall) : ∃ xs, Takes w (w.step call) xs := by
  cases call with
  | send now =>
      refine ⟨[], ?_⟩
      show Takes w (w.send now) []
      rcases w.send_cases now with ⟨_, heq⟩ | ⟨i, _, heq⟩ <;> rw [heq]
      · exact Takes.nothing rfl rfl rfl
      · exact Takes.nothing rfl (samples_snoc_other _ (by simp)) rfl
  | onAck a now =>
      show ∃ xs, Takes w (w.onAck a now) xs
      rcases w.onAck_cases a now with ⟨_, heq⟩ | ⟨i, _, _, heq⟩ <;> rw [heq]
      · exact ⟨[], Takes.nothing rfl rfl rfl⟩
      · refine ⟨[ackSample w.ctx.pending[i] (clock now)], rfl, ?_, rfl, fun x hx => ?_⟩
        · unfold samples
          rw [List.filterMap_append]
          rfl
        · rw [List.mem_singleton.mp hx]
          exact capped_le _
  | poll now =>
      refine ⟨[], ?_⟩
      show Takes w (w.poll now) []
      rcases w.poll_cases now with ⟨heq, _⟩ | ⟨i, _, ⟨_, _, heq⟩ | ⟨_, _, heq⟩⟩ <;> rw [heq]
      · exact Takes.nothing rfl rfl rfl
      · exact Takes.nothing rfl (samples_snoc_other _ (by simp)) rfl
      · exact Takes.nothing rfl (samples_snoc_other _ (by simp)) rfl
  | onData q =>
      rw [w.onData_eq]
      exact ⟨[], Takes.nothing rfl rfl rfl⟩

/-- **The estimate of a run is the fold of its samples.** -/
theorem run_takes (calls : List EngineCall) :
    ∀ w : EngineRun, ∃ xs, Takes w (run EngineRun.step w calls) xs := by
  induction calls with
  | nil => exact fun w => ⟨[], Takes.nothing rfl rfl rfl⟩
  | cons call calls ih =>
      intro w
      obtain ⟨xs, hxs⟩ := step_takes w call
      obtain ⟨ys, hys⟩ := ih (w.step call)
      exact ⟨xs ++ ys, hxs.trans hys⟩

/-! ## Between the samples -/

theorem le_foldl_rttUpdate {alpha : U8} {lo : Nat} (xs : List Nat) :
    ∀ {rtt : U16}, lo ≤ rtt.toNat → (∀ x ∈ xs, lo ≤ capped x) →
      lo ≤ (xs.foldl (rttUpdate alpha) rtt).toNat := by
  induction xs with
  | nil => exact fun h _ => h
  | cons x xs ih =>
      intro rtt he hxs
      exact ih (le_rttUpdate he (hxs x List.mem_cons_self)) fun y hy =>
        hxs y (List.mem_cons_of_mem _ hy)

theorem foldl_rttUpdate_le {alpha : U8} {hi : Nat} (hpos : 1 ≤ hi) (xs : List Nat) :
    ∀ {rtt : U16}, rtt.toNat ≤ hi → (∀ x ∈ xs, capped x ≤ hi) →
      (xs.foldl (rttUpdate alpha) rtt).toNat ≤ hi := by
  induction xs with
  | nil => exact fun h _ => h
  | cons x xs ih =>
      intro rtt he hxs
      exact ih (rttUpdate_le hpos he (hxs x List.mem_cons_self)) fun y hy =>
        hxs y (List.mem_cons_of_mem _ hy)

theorem foldl_rttUpdate_pos {alpha : U8} (xs : List Nat) :
    ∀ {rtt : U16}, 1 ≤ rtt.toNat → 1 ≤ (xs.foldl (rttUpdate alpha) rtt).toNat := by
  induction xs with
  | nil => exact fun h => h
  | cons x xs ih => exact fun _ => ih (rttUpdate_pos alpha _ x)

/-- No packet in flight has timeout 0. -/
def TimeoutsPos (w : EngineRun) : Prop :=
  ∀ i : Fin maxPending, w.ctx.pending[i].inUse = true → 1 ≤ w.ctx.pending[i].timeoutMs.toNat

theorem computeTimeoutMs_pos (rtt : U16) (k : U8) : 1 ≤ (computeTimeoutMs rtt k).toNat := by
  rw [computeTimeoutMs_toNat]
  exact (backoff_range _ _).1

theorem timeoutsPos_set {t : Vector Pending maxPending}
    (h : ∀ i : Fin maxPending, t[i].inUse = true → 1 ≤ t[i].timeoutMs.toNat) (i : Fin maxPending)
    {slot : Pending} (hslot : slot.inUse = true → 1 ≤ slot.timeoutMs.toNat) (j : Fin maxPending) :
    (t.put i slot)[j].inUse = true → 1 ≤ (t.put i slot)[j].timeoutMs.toNat :=
  forall_put (fun slot : Pending => slot.inUse = true → 1 ≤ slot.timeoutMs.toNat) h i hslot j

theorem TimeoutsPos.step {w : EngineRun} (h : TimeoutsPos w) (call : EngineCall) :
    TimeoutsPos (w.step call) := by
  cases call with
  | send now =>
      show TimeoutsPos (w.send now)
      rcases w.send_cases now with ⟨_, heq⟩ | ⟨i, _, heq⟩ <;> rw [heq]
      · exact h
      · exact timeoutsPos_set h i fun _ => computeTimeoutMs_pos _ _
  | onAck a now =>
      show TimeoutsPos (w.onAck a now)
      rcases w.onAck_cases a now with ⟨_, heq⟩ | ⟨i, _, _, heq⟩ <;> rw [heq]
      · exact h
      · exact timeoutsPos_set h i fun hno => absurd hno (by simp)
  | poll now =>
      show TimeoutsPos (w.poll now)
      rcases w.poll_cases now with ⟨heq, _⟩ | ⟨i, _, ⟨_, _, heq⟩ | ⟨_, _, heq⟩⟩ <;> rw [heq]
      · exact h
      · exact timeoutsPos_set h i fun hno => absurd hno (by simp)
      · exact timeoutsPos_set h i fun _ => computeTimeoutMs_pos _ _
  | onData q =>
      rw [w.onData_eq]
      exact h

theorem timeoutsPos_after (cfg : Option ReliableConfig) (calls : List EngineCall) :
    TimeoutsPos (engineAfter cfg calls) := by
  refine invariant (P := fun _ _ => True) (fun w call h _ => h.step call) (fun i hu => ?_)
    (Along.of_forall (fun _ _ => trivial) calls _)
  exact absurd ⟨hu, rfl⟩ (holds_start _ (pendingSeqs_init cfg) i _)

theorem reliableInit_alpha (cfg : Option ReliableConfig) :
    (reliableInit cfg).cfg.rttAlphaQ8 ≠ 0#8 := by
  have hne : ∀ alpha : U8, (if alpha == 0#8 then reliableDefaultConfig.rttAlphaQ8
      else alpha) ≠ 0#8 := by
    intro alpha
    split
    · decide
    · rename_i hne
      rwa [beq_iff_eq] at hne
  exact hne _

theorem reliableInit_rtt_pos (cfg : Option ReliableConfig) :
    1 ≤ (reliableInit cfg).rttEstimateMs.toNat := by
  have hpos : ∀ rtt : U16, 1 ≤ (if rtt == 0#16 then reliableDefaultConfig.initialRttMs
      else rtt).toNat := by
    intro rtt
    split
    · decide
    · rename_i hne
      rw [beq_iff_eq] at hne
      exact Nat.one_le_iff_ne_zero.mpr fun h0 => hne (BitVec.eq_of_toNat_eq h0)
  exact hpos _

/-- **What is exact and what is bounded** after any calls, `init` being the effective initial
estimate. -/
structure RttBounded (init : U16) (w : EngineRun) : Prop where
  /-- The next update computes in 32 bits what it would compute in the integers, and its result
  fits in 16. -/
  exact : ∀ (a : U16) (now : Nat) (i : Fin maxPending), findPendingSlot w.ctx a = some i →
    let alpha := w.ctx.cfg.rttAlphaQ8
    let rtt := w.ctx.rttEstimateMs
    let sample := ackSample w.ctx.pending[i] (clock now)
    (256 - alpha.toNat) * rtt.toNat ≤ 2 ^ 32 - 1 ∧ alpha.toNat * sample ≤ 2 ^ 32 - 1
      ∧ (256 - alpha.toNat) * rtt.toNat + alpha.toNat * sample ≤ 2 ^ 32 - 1
      ∧ ((256 - alpha.toNat) * rtt.toNat + alpha.toNat * sample) / 256 ≤ 2 ^ 16 - 1
      ∧ (reliableOnAck w.ctx a (clock now)).rttEstimateMs
        = rttUpdate32 alpha rtt (clock now - w.ctx.pending[i].lastSendMs)
  pos : 1 ≤ w.ctx.rttEstimateMs.toNat
  lower : ∀ lo, (init.toNat :: samples w.log).min? = some lo →
    max 1 lo ≤ w.ctx.rttEstimateMs.toNat
  upper : ∀ hi, (init.toNat :: samples w.log).max? = some hi → w.ctx.rttEstimateMs.toNat ≤ hi
  capped : ∀ x ∈ samples w.log, x ≤ 65535
  timeouts : ∀ i : Fin maxPending, w.ctx.pending[i].inUse = true →
    1 ≤ w.ctx.pending[i].timeoutMs.toNat ∧ w.ctx.pending[i].timeoutMs.toNat ≤ 65535

/--
**RTT arithmetic is exact and bounded**, in every run and with any timestamps. The
timeout grows with the retry index and with the estimate.
-/
theorem rtt_exact_bounded (cfg : Option ReliableConfig) (calls : List EngineCall) :
    RttBounded (reliableInit cfg).rttEstimateMs (engineAfter cfg calls)
    ∧ ∀ (rtt rtt' : U16) (k k' : U8), rtt ≤ rtt' → k ≤ k' →
        computeTimeoutMs rtt k ≤ computeTimeoutMs rtt' k' := by
  obtain ⟨xs, hxs⟩ := run_takes calls (EngineRun.start (reliableInit cfg))
  have hlog : samples (engineAfter cfg calls).log = xs := hxs.samples
  have hest : (engineAfter cfg calls).ctx.rttEstimateMs = _ := hxs.estimate
  have hinit := reliableInit_rtt_pos cfg
  have hpos : 1 ≤ (engineAfter cfg calls).ctx.rttEstimateMs.toNat := by
    rw [hest]
    exact foldl_rttUpdate_pos xs hinit
  refine ⟨⟨fun a now i hi => ?_, hpos, fun lo hlo => ?_, fun hi hhi => ?_, ?_, fun i hu => ?_⟩,
    fun rtt rtt' k k' hr hk => ?_⟩
  · obtain ⟨h1, h2, h3, h4⟩ := rttUpdate_fits (engineAfter cfg calls).ctx.cfg.rttAlphaQ8
      (engineAfter cfg calls).ctx.rttEstimateMs
      (clock now - (engineAfter cfg calls).ctx.pending[i].lastSendMs).toNat
    refine ⟨h1, h2, h3, h4, ?_⟩
    unfold reliableOnAck
    rw [hi, rttUpdate32_eq]
  · -- the estimate is no smaller than the least of them
    rw [hlog] at hlo
    obtain ⟨_, hle⟩ := List.min?_eq_some_iff.mp hlo
    refine max_le hpos ?_
    rw [hest]
    refine le_foldl_rttUpdate xs (hle _ List.mem_cons_self) fun x hx => ?_
    rw [capped_of_le (hxs.capped x hx)]
    exact hle x (List.mem_cons_of_mem _ hx)
  · rw [hlog] at hhi
    obtain ⟨_, hle⟩ := List.max?_eq_some_iff.mp hhi
    rw [hest]
    refine foldl_rttUpdate_le (hinit.trans (hle _ List.mem_cons_self)) xs
      (hle _ List.mem_cons_self) fun x hx => ?_
    rw [capped_of_le (hxs.capped x hx)]
    exact hle x (List.mem_cons_of_mem _ hx)
  · rw [hlog]
    exact hxs.capped
  · exact ⟨timeoutsPos_after cfg calls i hu, Nat.le_of_lt_succ (BitVec.isLt _)⟩
  · rw [BitVec.le_def, computeTimeoutMs_toNat, computeTimeoutMs_toNat]
    exact backoff_mono hk hr

/-! ## Constant samples -/

/-- From `x` to `y` is a way towards `s`, and not beyond it. -/
def Toward (s x y : Nat) : Prop := (x ≤ s → x ≤ y ∧ y ≤ s) ∧ (s ≤ x → s ≤ y ∧ y ≤ x)

theorem Toward.refl (s x : Nat) : Toward s x x :=
  ⟨fun h => ⟨le_rfl, h⟩, fun h => ⟨h, le_rfl⟩⟩

theorem Toward.trans {s x y z : Nat} (h : Toward s x y) (h' : Toward s y z) : Toward s x z := by
  refine ⟨fun hx => ?_, fun hx => ?_⟩
  · obtain ⟨hxy, hy⟩ := h.1 hx
    exact ⟨hxy.trans (h'.1 hy).1, (h'.1 hy).2⟩
  · obtain ⟨hy, hyx⟩ := h.2 hx
    exact ⟨(h'.2 hy).1, (h'.2 hy).2.trans hyx⟩

section Constant

variable {alpha : U8} {rtt : U16} {s d : Nat}

/-- Falling by `d` loses the fraction: what is left of the distance is rounded down. -/
theorem rttUpdate_above (hs : 1 ≤ s) (hs' : s ≤ 65535) (h : rtt.toNat = s + d) :
    (rttUpdate alpha rtt s).toNat = s + (256 - alpha.toNat) * d / 256 := by
  have ha : alpha.toNat ≤ 256 := le_of_lt alpha.isLt
  have hsum : (256 - alpha.toNat) * (s + d) + alpha.toNat * s
      = (256 - alpha.toNat) * d + 256 * s := by
    rw [Nat.mul_add, Nat.add_right_comm, ← Nat.add_mul, Nat.sub_add_cancel ha, Nat.add_comm]
  rw [rttUpdate_toNat, capped_of_le hs', h, hsum, Nat.add_mul_div_left _ _ (by decide)]
  omega

/-- Rising by `d`, what is gained is rounded down. -/
theorem rttUpdate_below (hr : 1 ≤ rtt.toNat) (hs' : s ≤ 65535) (h : s = rtt.toNat + d) :
    (rttUpdate alpha rtt s).toNat = rtt.toNat + alpha.toNat * d / 256 := by
  have ha : alpha.toNat ≤ 256 := le_of_lt alpha.isLt
  have hsum : (256 - alpha.toNat) * rtt.toNat + alpha.toNat * (rtt.toNat + d)
      = alpha.toNat * d + 256 * rtt.toNat := by
    rw [Nat.mul_add, ← Nat.add_assoc, ← Nat.add_mul, Nat.sub_add_cancel ha, Nat.add_comm]
  rw [rttUpdate_toNat, capped_of_le hs', h, hsum, Nat.add_mul_div_left _ _ (by decide)]
  omega

theorem rttUpdate_toward (alpha : U8) (hs : 1 ≤ s) (hs' : s ≤ 65535) (hr : 1 ≤ rtt.toNat) :
    Toward s rtt.toNat (rttUpdate alpha rtt s).toNat := by
  have ha : alpha.toNat ≤ 256 := le_of_lt alpha.isLt
  refine ⟨fun h => ?_, fun h => ?_⟩
  · obtain ⟨d, hd⟩ := Nat.exists_eq_add_of_le h
    have hgain : alpha.toNat * d / 256 ≤ d :=
      Nat.div_le_of_le_mul (Nat.mul_le_mul_right d ha)
    rw [rttUpdate_below hr hs' hd]
    omega
  · obtain ⟨d, hd⟩ := Nat.exists_eq_add_of_le h
    have hleft : (256 - alpha.toNat) * d / 256 ≤ d :=
      Nat.div_le_of_le_mul (Nat.mul_le_mul_right d (Nat.sub_le _ _))
    rw [rttUpdate_above hs hs' hd]
    omega

/-- **An update that changes the estimate brings it closer.** -/
theorem rttUpdate_descends (alpha : U8) (hs : 1 ≤ s) (hs' : s ≤ 65535) :
    Descends (fun rtt => rttUpdate alpha rtt s) (fun rtt : U16 => Nat.dist rtt.toNat s) := by
  intro rtt
  by_cases hsame : rttUpdate alpha rtt s = rtt
  · exact Or.inl hsame
  · right
    have hne : (rttUpdate alpha rtt s).toNat ≠ rtt.toNat :=
      fun h => hsame (BitVec.eq_of_toNat_eq h)
    unfold Nat.dist
    dsimp only
    rcases Nat.eq_zero_or_pos rtt.toNat with h0 | hr
    · -- an estimate of 0 becomes at least 1, and no more than `s`
      have hpos := rttUpdate_pos alpha rtt s
      have hle : (rttUpdate alpha rtt s).toNat ≤ s :=
        rttUpdate_le hs (by omega) (by rw [capped_of_le hs'])
      omega
    · obtain ⟨hup, hdown⟩ := rttUpdate_toward alpha hs hs' hr
      rcases Nat.le_total rtt.toNat s with h | h
      · have := hup h
        omega
      · have := hdown h
        omega

/-- **Where it stays**: not above `s`, and so close below it that the gain rounds down to
nothing. -/
theorem rttUpdate_fixed (halpha : alpha ≠ 0#8) (hs : 1 ≤ s) (hs' : s ≤ 65535) (hr : 1 ≤ rtt.toNat)
    (hfix : rttUpdate alpha rtt s = rtt) :
    rtt.toNat ≤ s ∧ alpha.toNat * (s - rtt.toNat) < 256 := by
  have hpos : 1 ≤ alpha.toNat :=
    Nat.one_le_iff_ne_zero.mpr fun h0 => halpha (BitVec.eq_of_toNat_eq h0)
  have hval := congrArg BitVec.toNat hfix
  have hle : rtt.toNat ≤ s := by
    by_contra hgt
    obtain ⟨d, hd⟩ := Nat.exists_eq_add_of_le (Nat.le_of_lt (Nat.not_le.mp hgt))
    rw [rttUpdate_above hs hs' hd] at hval
    -- above `s` the fraction lost is at least one
    have hless : (256 - alpha.toNat) * d < 256 * d :=
      Nat.mul_lt_mul_of_pos_right (by omega) (by omega)
    have := Nat.div_lt_of_lt_mul hless
    omega
  refine ⟨hle, ?_⟩
  obtain ⟨d, hd⟩ := Nat.exists_eq_add_of_le hle
  rw [rttUpdate_below hr hs' hd] at hval
  have hgain : alpha.toNat * d / 256 = 0 := by omega
  rw [show s - rtt.toNat = d by omega]
  exact Nat.lt_of_div_eq_zero (by decide) hgain

end Constant

theorem foldl_const {f : U16 → Nat → U16} {s : Nat} (xs : List Nat) :
    ∀ {rtt : U16}, (∀ x ∈ xs, x = s) → xs.foldl f rtt = (fun rtt => f rtt s)^[xs.length] rtt := by
  induction xs with
  | nil => exact fun _ => rfl
  | cons x xs ih =>
      intro rtt hxs
      obtain rfl := hxs x List.mem_cons_self
      rw [List.foldl_cons, ih fun y hy => hxs y (List.mem_cons_of_mem _ hy), List.length_cons,
        Function.iterate_succ_apply]

theorem foldl_toward {alpha : U8} {s : Nat} (hs : 1 ≤ s) (hs' : s ≤ 65535) (xs : List Nat) :
    ∀ {rtt : U16}, 1 ≤ rtt.toNat → (∀ x ∈ xs, x = s) →
      Toward s rtt.toNat (xs.foldl (rttUpdate alpha) rtt).toNat := by
  induction xs with
  | nil => exact fun _ _ => Toward.refl _ _
  | cons x xs ih =>
      intro rtt hr hxs
      obtain rfl := hxs x List.mem_cons_self
      exact (rttUpdate_toward _ hs hs' hr).trans
        (ih (rttUpdate_pos alpha rtt x) fun y hy => hxs y (List.mem_cons_of_mem _ hy))

/--
**The filter settles.** On a context with estimate `e`, let every ACK that matches
come `s` ms after its packet's last transmission, whatever else is called. The
estimate moves towards `s` from ACK to ACK and never crosses it. After `|e - s|` of
them it stays at one value `f`, no larger than `s` and closer than `256 / alpha` to
it; if it came from above, `f` is `s`.
-/
theorem rtt_settles (ctx : ReliableCtx) {s : Nat} (hs : 1 ≤ s) (hs' : s ≤ 65535)
    (halpha : ctx.cfg.rttAlphaQ8 ≠ 0#8) (hrtt : ctx.rttEstimateMs ≠ 0#16) :
    ∃ f : Nat, f ≤ s ∧ ctx.cfg.rttAlphaQ8.toNat * (s - f) < 256
      ∧ (s ≤ ctx.rttEstimateMs.toNat → f = s)
      ∧ ∀ pre post : List EngineCall,
        let w := run EngineRun.step (EngineRun.start ctx) pre
        let w' := run EngineRun.step (EngineRun.start ctx) (pre ++ post)
        (∀ x ∈ samples w'.log, x = s) →
          Toward s w.ctx.rttEstimateMs.toNat w'.ctx.rttEstimateMs.toNat
          ∧ (Nat.dist ctx.rttEstimateMs.toNat s ≤ (samples w'.log).length →
              w'.ctx.rttEstimateMs.toNat = f) := by
  have hpos : 1 ≤ ctx.rttEstimateMs.toNat :=
    Nat.one_le_iff_ne_zero.mpr fun h0 => hrtt (BitVec.eq_of_toNat_eq h0)
  -- where the iteration is after `|e - s|` rounds
  have hdesc := rttUpdate_descends ctx.cfg.rttAlphaQ8 hs hs'
  obtain ⟨n, hn⟩ : ∃ n, n = Nat.dist ctx.rttEstimateMs.toNat s := ⟨_, rfl⟩
  obtain ⟨rtt, hrtt'⟩ : ∃ rtt, rtt = (fun rtt => rttUpdate ctx.cfg.rttAlphaQ8 rtt s)^[n]
    ctx.rttEstimateMs := ⟨_, rfl⟩
  have hfold : (List.replicate n s).foldl (rttUpdate ctx.cfg.rttAlphaQ8) ctx.rttEstimateMs
      = rtt := by
    rw [foldl_const _ fun x hx => List.eq_of_mem_replicate hx, List.length_replicate, hrtt']
  have hpos' : 1 ≤ rtt.toNat := hfold ▸ foldl_rttUpdate_pos _ hpos
  have htoward : Toward s ctx.rttEstimateMs.toNat rtt.toNat :=
    hfold ▸ foldl_toward hs hs' _ hpos fun x hx => List.eq_of_mem_replicate hx
  have hfix : rttUpdate ctx.cfg.rttAlphaQ8 rtt s = rtt := by
    rw [hrtt', hn]
    exact hdesc.fixed _ _ le_rfl
  obtain ⟨hle, hclose⟩ := rttUpdate_fixed halpha hs hs' hpos' hfix
  refine ⟨rtt.toNat, hle, hclose, fun h => le_antisymm hle (htoward.2 h).1, fun pre post => ?_⟩
  intro w w' hall
  obtain ⟨xs, hxs⟩ := run_takes pre (EngineRun.start ctx)
  obtain ⟨ys, hys⟩ := run_takes post w
  have hend : run EngineRun.step w post = w' := (run_append _ _ _).symm
  rw [hend] at hys
  have hboth := hxs.trans hys
  have hlog : samples w'.log = xs ++ ys := hboth.samples
  rw [hlog] at hall ⊢
  constructor
  · have hest : w.ctx.rttEstimateMs = xs.foldl (rttUpdate ctx.cfg.rttAlphaQ8) ctx.rttEstimateMs :=
      hxs.estimate
    have hest' : w'.ctx.rttEstimateMs
        = ys.foldl (rttUpdate w.ctx.cfg.rttAlphaQ8) w.ctx.rttEstimateMs := hys.estimate
    rw [hest']
    refine foldl_toward hs hs' ys ?_ fun x hx => hall x (List.mem_append_right _ hx)
    rw [hest]
    exact foldl_rttUpdate_pos xs hpos
  · intro hmany
    have hest : w'.ctx.rttEstimateMs
        = (xs ++ ys).foldl (rttUpdate ctx.cfg.rttAlphaQ8) ctx.rttEstimateMs := hboth.estimate
    rw [hest, foldl_const _ hall, hdesc.settled hmany, hrtt', hn]

/-- From 43 the estimate falls to 40 in three ACKs. -/
theorem rtt_settles_three :
    let ctx := reliableInit (some { maxRetries := 5#8, initialRttMs := 43#16, rttAlphaQ8 := 32#8 })
    let calls := [EngineCall.send 0, .onAck 0#16 40, .send 100, .onAck 1#16 140, .send 200,
      .onAck 2#16 240]
    ∃ w, w = run EngineRun.step (EngineRun.start ctx) calls
      ∧ samples w.log = [40, 40, 40] ∧ w.ctx.rttEstimateMs.toNat = 40 := by
  intro ctx calls
  have hsamples : samples (run EngineRun.step (EngineRun.start ctx) calls).log = [40, 40, 40] := by
    decide +kernel
  obtain ⟨f, _, _, habove, hrun⟩ :=
    rtt_settles ctx (s := 40) (by decide) (by decide) (by decide) (by decide)
  have hfrom := hrun [] calls
  simp only [List.nil_append, hsamples] at hfrom
  refine ⟨_, rfl, hsamples, ?_⟩
  rw [(hfrom (by simp)).2 (by decide), habove (by decide)]

end Relinow
