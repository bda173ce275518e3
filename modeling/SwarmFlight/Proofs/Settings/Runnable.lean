import SwarmFlight.Proofs.Number.Binary64
import SwarmFlight.Proofs.Number.Clock
import SwarmFlight.Settings

/-!
# Which settings a run can be made of

`validate` looks at seconds, a run counts nanoseconds. Settings are `Runnable` if every time
converts, no period is zero and no period or latency added to the stop time leaves the
range of the clock. For settings that pass validation this comes down to three conditions on
the exact values of the numbers (`FitsClock`, `runnable_iff_fitsClock`) : the two single
times are below `2 ^ 64` seconds, the periods are longer than half a nanosecond, and the
run's length leaves room for them.

Validation does not imply these : `tooFine` passes it, and its agents compute every zero
nanoseconds.
-/

namespace SwarmFlight

/-! ## Rounding -/

/-- Only what is at most one half rounds to zero. -/
theorem nearest_eq_zero_iff {num den : Nat} (hden : 0 < den) :
    nearest num den = 0 ↔ 2 * num ≤ den := by
  rcases Nat.lt_or_ge num den with hlt | hge
  · unfold nearest
    rw [Nat.div_eq_of_lt hlt, Nat.mod_eq_of_lt hlt]
    dsimp only
    split
    · rename_i h
      exact iff_of_true rfl h.le
    · split
      · rename_i h
        exact iff_of_false Nat.one_ne_zero (Nat.not_le.2 h)
      · rename_i h
        exact iff_of_true rfl (Nat.not_lt.1 h)
  · have hpos : 0 < num / den := Nat.div_pos hge hden
    have hle := le_nearest num den
    exact iff_of_false (by omega) (by omega)

namespace Duration

/-! ## Seconds as nanoseconds -/

/-- The exact number of seconds, zero for what is not finite. -/
def exactSeconds (x : Float) : ℚ :=
  match Datum.ofFloat x with
  | .finite d => d.magnitude
  | _ => 0

/-- The nearest number of nanoseconds, without regard to the range. -/
def nearestNanos (x : Float) : Nat :=
  match Datum.ofFloat x with
  | .finite d => nearest (d.quotient.1 * nanosPerSecond) d.quotient.2
  | _ => 0

variable {x : Float}

theorem finite_of_not_isNegative (h : Settings.isNegative x = false) :
    ∃ d, Datum.ofFloat x = .finite d ∧ ¬ (d.negative = true ∧ d.significand ≠ 0) := by
  simp only [Settings.isNegative, Bool.or_eq_false_iff, Bool.not_eq_false',
    decide_eq_false_iff_not] at h
  obtain ⟨d, hd⟩ := Datum.isFinite_iff.1 h.1
  exact ⟨d, hd, fun hn => h.2 ((Datum.lt_zero_iff hd).2 hn)⟩

theorem not_isNegative_of_not_notPositive (h : Settings.notPositive x = false) :
    Settings.isNegative x = false := by
  simp only [Settings.notPositive, Settings.isNegative, Bool.or_eq_false_iff, Bool.not_eq_false',
    decide_eq_false_iff_not] at *
  obtain ⟨d, hd⟩ := Datum.isFinite_iff.1 h.1
  rw [Datum.le_zero_iff hd] at h
  rw [Datum.lt_zero_iff hd]
  exact ⟨h.1, fun hn => h.2 (.inl hn.1)⟩

theorem ofSeconds?_eq (h : Settings.isNegative x = false) :
    ofSeconds? x = ofNanos? (nearestNanos x) := by
  obtain ⟨d, hd, hn⟩ := finite_of_not_isNegative h
  simp only [ofSeconds?, nearestNanos, hd, if_neg hn]

theorem ofSeconds?_eq_some_iff (h : Settings.isNegative x = false) {t : Duration} :
    ofSeconds? x = some t ↔ t.nanos = nearestNanos x := by
  rw [ofSeconds?_eq h]
  unfold ofNanos?
  constructor
  · intro ht
    split at ht
    · cases ht
      rfl
    · cases ht
  · intro ht
    have hlt := ht ▸ t.inRange
    rw [dif_pos hlt]
    exact congrArg some (ext ht.symm)

/-- Half a nanosecond rounds to nothing, and so does all that is shorter. -/
theorem nearestNanos_pos_iff (h : Settings.isNegative x = false) :
    0 < nearestNanos x ↔ 1 / (2 * 10 ^ 9) < exactSeconds x := by
  obtain ⟨d, hd, -⟩ := finite_of_not_isNegative h
  have hden : (0 : ℚ) < d.quotient.2 := Nat.cast_pos.2 d.quotient_den_pos
  simp only [nearestNanos, exactSeconds, hd, d.magnitude_eq]
  rw [Nat.pos_iff_ne_zero, ne_eq, nearest_eq_zero_iff d.quotient_den_pos, Nat.not_le,
    div_lt_div_iff₀ (by norm_num) hden, ← Nat.cast_lt (α := ℚ)]
  norm_num [nanosPerSecond]
  constructor <;> intro <;> linarith

/-- Exactly the numbers below `2 ^ 64` round into the range. -/
theorem nearestNanos_lt_iff (h : Settings.isNegative x = false) :
    nearestNanos x < durationLimit ↔ exactSeconds x < 2 ^ 64 := by
  obtain ⟨d, hd, -⟩ := finite_of_not_isNegative h
  have hden : (0 : ℚ) < d.quotient.2 := Nat.cast_pos.2 d.quotient_den_pos
  simp only [nearestNanos, exactSeconds, hd]
  constructor
  · intro hlt
    have hdiv : d.quotient.1 * nanosPerSecond / d.quotient.2 < durationLimit :=
      (le_nearest _ _).trans_lt hlt
    rw [Nat.div_lt_iff_lt_mul d.quotient_den_pos, ← Nat.cast_lt (α := ℚ)] at hdiv
    rw [d.magnitude_eq, div_lt_iff₀ hden]
    norm_num [durationLimit, nanosPerSecond, UInt64.size] at hdiv ⊢
    linarith
  · intro hlt
    have hle := Datum.magnitude_le_of_lt hd hlt
    rw [d.magnitude_eq, div_le_iff₀ hden] at hle
    have hdiv : d.quotient.1 * nanosPerSecond / d.quotient.2 < durationLimit - 1 := by
      rw [Nat.div_lt_iff_lt_mul d.quotient_den_pos, ← Nat.cast_lt (α := ℚ)]
      norm_num [durationLimit, nanosPerSecond, UInt64.size] at hle ⊢
      linarith
    have hsucc := nearest_le_succ (d.quotient.1 * nanosPerSecond) d.quotient.2
    exact Nat.lt_of_le_of_lt hsucc (Nat.add_lt_of_lt_sub hdiv)

end Duration

/-! ## Settings -/

namespace Settings

open Duration

variable {s : Settings}

/-- Every time converts, no period is zero, and none of the periods nor the latency takes the clock
out of its range when it is added to the stop time. -/
def Runnable (s : Settings) : Prop :=
  ∃ (stop start : Instant) (period : Duration) (due : Option Instant) (link : Link)
    (agents : AgentSettings),
    s.stopTime = .ok stop ∧ s.followerStart = .ok start ∧ s.samplePeriod = .ok period ∧
    s.compromiseTime = .ok due ∧ s.link = .ok link ∧ s.forAgents = .ok agents ∧
    agents.packetInterval ≠ .zero ∧ agents.calculateInterval ≠ .zero ∧ period ≠ .zero ∧
    ∀ d ∈ [agents.packetInterval, agents.calculateInterval, period, link.latency],
      (stop.add? d).isSome

/-- The exact values of the times suit a clock that counts nanoseconds up to `2 ^ 64` seconds. -/
structure FitsClock (s : Settings) : Prop where
  start : exactSeconds s.followerStartDelay < 2 ^ 64
  compromise : ∀ c ∈ s.compromise, exactSeconds c.seconds < 2 ^ 64
  fine : ∀ x ∈ [s.packetInterval, s.calculateInterval, s.sampleInterval],
    1 / (2 * 10 ^ 9) < exactSeconds x
  room : ∀ x ∈ [s.packetInterval, s.calculateInterval, s.sampleInterval, s.linkLatency],
    nearestNanos s.duration + nearestNanos x < durationLimit

theorem validate_eq_ok_iff : s.validate = .ok () ↔ ∀ c ∈ s.checks, c.1 = false := by
  unfold validate
  constructor
  · intro h c hc
    split at h
    · cases h
    · rename_i hnone
      simpa using List.find?_eq_none.1 hnone c hc
  · intro h
    have hnone : s.checks.find? (·.1) = none :=
      List.find?_eq_none.2 fun c hc => by simp [h c hc]
    rw [hnone]

/-- The times of settings that pass validation : none of them is negative. -/
structure Times (s : Settings) : Prop where
  duration : isNegative s.duration = false
  packet : isNegative s.packetInterval = false
  calculate : isNegative s.calculateInterval = false
  sample : isNegative s.sampleInterval = false
  start : isNegative s.followerStartDelay = false
  latency : isNegative s.linkLatency = false
  compromise : ∀ c ∈ s.compromise, isNegative c.seconds = false

theorem times_of_validate (h : s.validate = .ok ()) : s.Times := by
  rw [validate_eq_ok_iff] at h
  simp only [checks, List.forall_mem_cons] at h
  obtain ⟨-, -, -, -, hd, hp, hc, hs, hf, hl, -, -, -, ha, -⟩ := h
  refine ⟨not_isNegative_of_not_notPositive hd, not_isNegative_of_not_notPositive hp,
    not_isNegative_of_not_notPositive hc, not_isNegative_of_not_notPositive hs, hf, hl, ?_⟩
  intro c hc
  simpa [Option.mem_def.1 hc] using ha

section Times

variable {x : Float}

theorem instant_eq_ok_iff (h : isNegative x = false) {t : Instant} :
    instant x = .ok t ↔ t.nanos = nearestNanos x := by
  rw [← ofSeconds?_eq_some_iff h]
  unfold instant
  cases ofSeconds? x <;> simp

theorem span_eq_ok_iff (h : isNegative x = false) {t : Duration} :
    span x = .ok t ↔ t.nanos = nearestNanos x := by
  rw [← ofSeconds?_eq_some_iff h]
  unfold span
  cases ofSeconds? x <;> simp

theorem span_eq_ok (h : isNegative x = false) (hlt : nearestNanos x < durationLimit) :
    span x = .ok ⟨_, hlt⟩ :=
  (span_eq_ok_iff h).2 rfl

theorem instant_eq_ok (h : isNegative x = false) (hlt : nearestNanos x < durationLimit) :
    instant x = .ok ⟨_, hlt⟩ :=
  (instant_eq_ok_iff h).2 rfl

end Times

theorem latency_of_link {l : Link} (h : s.link = .ok l) : span s.linkLatency = .ok l.latency := by
  unfold link at h
  cases hs : span s.linkLatency <;> rw [hs] at h <;> cases h
  rfl

theorem periods_of_forAgents {a : AgentSettings} (h : s.forAgents = .ok a) :
    span s.packetInterval = .ok a.packetInterval ∧
      span s.calculateInterval = .ok a.calculateInterval := by
  unfold forAgents at h
  cases hp : span s.packetInterval <;> rw [hp] at h
  · cases h
  · cases hc : span s.calculateInterval <;> rw [hc] at h <;> cases h
    exact ⟨rfl, rfl⟩

theorem told_of_forAgents {a : AgentSettings} (h : s.forAgents = .ok a) :
    a.baseAddress = s.baseAddress ∧ a.agentCount = s.agentCount := by
  unfold forAgents at h
  cases hp : span s.packetInterval <;> rw [hp] at h
  · cases h
  · cases hc : span s.calculateInterval <;> rw [hc] at h <;> cases h
    exact ⟨rfl, rfl⟩

theorem compromiseTime_of_some {c : CompromiseSetting} (h : s.compromise = some c) :
    s.compromiseTime = (instant c.seconds).map some := by
  rw [compromiseTime, h]

theorem nanos_pos_of_ne_zero {d : Duration} (h : d ≠ .zero) : 0 < d.nanos :=
  Nat.pos_of_ne_zero fun h0 => h (Duration.ext h0)

theorem fitsClock_of_runnable (ht : s.Times) (h : s.Runnable) : s.FitsClock := by
  obtain ⟨stop, start, period, due, link, agents, hstop, hstart, hperiod, hdue, hlink, hagents,
    hp0, hc0, hs0, hroom⟩ := h
  obtain ⟨hp, hc⟩ := periods_of_forAgents hagents
  have hl := latency_of_link hlink
  rw [stopTime, instant_eq_ok_iff ht.duration] at hstop
  rw [followerStart, instant_eq_ok_iff ht.start] at hstart
  rw [samplePeriod, span_eq_ok_iff ht.sample] at hperiod
  rw [span_eq_ok_iff ht.packet] at hp
  rw [span_eq_ok_iff ht.calculate] at hc
  rw [span_eq_ok_iff ht.latency] at hl
  simp only [List.forall_mem_cons, isSome_add?_iff, hstop, hp, hc, hl, hperiod] at hroom
  refine ⟨(nearestNanos_lt_iff ht.start).1 (hstart ▸ start.inRange), fun c hc => ?_, ?_, ?_⟩
  · rw [compromiseTime_of_some hc] at hdue
    cases ht' : instant c.seconds with
    | error f => rw [ht'] at hdue; cases hdue
    | ok t =>
      rw [instant_eq_ok_iff (ht.compromise c hc)] at ht'
      exact (nearestNanos_lt_iff (ht.compromise c hc)).1 (ht' ▸ t.inRange)
  · simp only [List.forall_mem_cons]
    refine ⟨(nearestNanos_pos_iff ht.packet).1 ?_, (nearestNanos_pos_iff ht.calculate).1 ?_,
      (nearestNanos_pos_iff ht.sample).1 ?_, fun _ h => absurd h List.not_mem_nil⟩
    · exact hp ▸ nanos_pos_of_ne_zero hp0
    · exact hc ▸ nanos_pos_of_ne_zero hc0
    · exact hperiod ▸ nanos_pos_of_ne_zero hs0
  · obtain ⟨rp, rc, rs, rl, -⟩ := hroom
    simp only [List.forall_mem_cons]
    exact ⟨rp, rc, rs, rl, fun _ h => absurd h List.not_mem_nil⟩

theorem runnable_of_fitsClock (ht : s.Times) (h : s.FitsClock) : s.Runnable := by
  obtain ⟨hstart, hdue, hfine, hroom⟩ := h
  simp only [List.forall_mem_cons] at hfine hroom
  obtain ⟨hp, hc, hs, -⟩ := hfine
  obtain ⟨rp, rc, rs, rl, -⟩ := hroom
  rw [← nearestNanos_pos_iff ht.packet] at hp
  rw [← nearestNanos_pos_iff ht.calculate] at hc
  rw [← nearestNanos_pos_iff ht.sample] at hs
  rw [← nearestNanos_lt_iff ht.start] at hstart
  obtain ⟨due, hdue⟩ : ∃ due, s.compromiseTime = .ok due := by
    cases hc : s.compromise with
    | none => exact ⟨none, by rw [compromiseTime, hc]⟩
    | some c =>
      have hn := ht.compromise c hc
      rw [compromiseTime_of_some hc, instant_eq_ok hn ((nearestNanos_lt_iff hn).2 (hdue c hc))]
      exact ⟨_, rfl⟩
  have hpk := span_eq_ok ht.packet (by omega)
  have hcl := span_eq_ok ht.calculate (by omega)
  have hlt := span_eq_ok ht.latency (by omega)
  refine ⟨_, _, _, due, ⟨⟨_, _⟩, s.packetLoss, s.seed⟩, _,
    instant_eq_ok ht.duration (by omega), instant_eq_ok ht.start hstart,
    span_eq_ok ht.sample (by omega), hdue, by rw [link, hlt]; rfl,
    by rw [forAgents, hpk, hcl]; rfl, ?_, ?_, ?_, ?_⟩
  · exact fun h => hp.ne' (congrArg Duration.nanos h)
  · exact fun h => hc.ne' (congrArg Duration.nanos h)
  · exact fun h => hs.ne' (congrArg Duration.nanos h)
  · simp only [List.forall_mem_cons, isSome_add?_iff]
    exact ⟨rp, rc, rs, rl, fun _ h => absurd h List.not_mem_nil⟩

/-- Settings that pass validation make a run exactly if their times suit the clock. -/
theorem runnable_iff_fitsClock (h : s.validate = .ok ()) : s.Runnable ↔ s.FitsClock :=
  ⟨fitsClock_of_runnable (times_of_validate h), runnable_of_fitsClock (times_of_validate h)⟩

theorem usual_runnable_iff : usual.validate = .ok () ∧ (usual.Runnable ↔ usual.FitsClock) :=
  ⟨rfl, runnable_iff_fitsClock rfl⟩

/-- The usual settings with a step of a tenth of a nanosecond. -/
def tooFine : Settings := { usual with calculateInterval := 1e-10 }

theorem not_runnable_tooFine : tooFine.validate = .ok () ∧ ¬ tooFine.Runnable := by
  refine ⟨rfl, ?_⟩
  rintro ⟨-, -, -, -, -, agents, -, -, -, -, -, hagents, -, hne, -⟩
  have hspan := (periods_of_forAgents hagents).2
  have hzero : Duration.ofSeconds? tooFine.calculateInterval = some .zero := by decide +kernel
  rw [span, hzero] at hspan
  exact hne (Except.ok.inj hspan).symm

/-- A second of a leader and a follower that is compromised after half of it. -/
def pair : Settings :=
  { usual with
    followerCount := 1
    duration := 1.0
    followerStartDelay := 0.0
    compromise := some ⟨0.5, 2⟩ }

theorem pair_times : pair.stopTime = .ok ⟨1000000000, by decide⟩ ∧
    pair.followerStart = .ok .zero ∧ pair.compromiseTime = .ok (some ⟨500000000, by decide⟩) := by
  have hstop : ofSeconds? pair.duration = some ⟨1000000000, by decide⟩ := by decide +kernel
  have hstart : ofSeconds? pair.followerStartDelay = some .zero := by decide +kernel
  have hdue : ofSeconds? 0.5 = some ⟨500000000, by decide⟩ := by decide +kernel
  have hcompromise : pair.compromise = some ⟨0.5, 2⟩ := rfl
  refine ⟨by rw [stopTime, instant, hstop], by rw [followerStart, instant, hstart], ?_⟩
  rw [compromiseTime_of_some hcompromise, instant, hdue]
  rfl

theorem pair_samplePeriod : pair.samplePeriod = .ok ⟨50000000, by decide⟩ := by
  have hsample : ofSeconds? pair.sampleInterval = some ⟨50000000, by decide⟩ := by decide +kernel
  rw [samplePeriod, span, hsample]

theorem pair_runnable : pair.Runnable := by
  obtain ⟨hstop, hstart, hdue⟩ := pair_times
  have hpacket : ofSeconds? pair.packetInterval = some ⟨1500000000, by decide⟩ := by decide +kernel
  have hcalculate : ofSeconds? pair.calculateInterval = some ⟨10000000, by decide⟩ := by
    decide +kernel
  have hlatency : ofSeconds? pair.linkLatency = some ⟨1000000, by decide⟩ := by decide +kernel
  refine ⟨_, _, _, _, ⟨_, pair.packetLoss, pair.seed⟩, _, hstop, hstart,
    pair_samplePeriod, hdue, by rw [link, span, hlatency]; rfl,
    by rw [forAgents, span, span, hpacket, hcalculate]; rfl, ?_, ?_, ?_, ?_⟩
  · decide
  · decide
  · decide
  · decide

end Settings

end SwarmFlight
