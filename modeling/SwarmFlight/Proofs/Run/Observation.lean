import SwarmFlight.Proofs.Run.Alike
import SwarmFlight.Proofs.Run.Totals

/-!
# Observing a run does not disturb it

Samples can be taken as often or as seldom as one likes : two runs of settings that differ in
the sample interval only come to the same end, and the samples are all that their histories
differ in (`sampling_invisible`).

A run is `Watched` while nothing but samples is dispatched. Every state of a run was watched
from its beginning or from the last event that matters on (`Proceeds.cases_last`). So states of
two runs after the same number of events that matter are alike, and so are their histories
(`Proceeds.alike`); and neither run can end while such an event is to come in the other one
(`Proceeds.length_mattering_le`). The two may also have different seeds, if the link loses
nothing (`alike_of_withPositions`).
-/

namespace SwarmFlight

/-- What a history consists of apart from samples. -/
def mattering (log : List Occurrence) : List Occurrence := log.filter fun o => o.event.matters

theorem mattering_concat (log : List Occurrence) (o : Occurrence) : mattering (log ++ [o]) =
    mattering log ++ if o.event.matters then [o] else [] := by
  rw [mattering, List.filter_append, List.filter_singleton]
  cases o.event.matters <;> rfl

/-- Everything that was dispatched matters or is a sample. -/
theorem length_eq_mattering_add (log : List Occurrence) :
    log.length = (mattering log).length + (timesOf log .sample).length := by
  have hsample : log.filter (fun o => o.event = .sample) =
      log.filter fun o => !o.event.matters := by
    refine List.filter_congr fun o _ => ?_
    cases o.event <;> rfl
  rw [timesOf, List.length_map, hsample, mattering]
  exact List.length_eq_length_filter_add fun o : Occurrence => o.event.matters

/-- Runnable settings stay so with another sample interval that suits the clock. -/
theorem Settings.Runnable.resampled {s : Settings} (h : s.Runnable) {interval : Float}
    {period : Duration} (hperiod : Settings.span interval = .ok period) (hne : period ≠ .zero)
    (hroom : ∀ stop, s.stopTime = .ok stop → (stop.add? period).isSome) :
    Settings.Runnable { s with sampleInterval := interval } := by
  obtain ⟨stop, start, _, due, link, agents, hstop, hstart, -, hdue, hlink, hagents, hp, hc, -,
    hall⟩ := h
  simp only [List.forall_mem_cons] at hall
  refine ⟨stop, start, period, due, link, agents, hstop, hstart, hperiod, hdue, hlink, hagents, hp,
    hc, hne, ?_⟩
  simp only [List.forall_mem_cons]
  exact ⟨hall.1, hall.2.1, hroom stop hstop, hall.2.2.2⟩

namespace Simulation

variable {first first' sim sim₁ sim' : Simulation} {log log' : List Occurrence}
  {e : Entry Event} {r : Except Failure Bool} {last ended last' ended' : Simulation}

/-! ## Between two events that matter -/

/-- The states of a run while nothing but samples is dispatched. -/
inductive Watched (first : Simulation) : Simulation → Prop
  | first : Watched first first
  | refuse {sim : Simulation} (a : Address) (h : Watched first sim) : Watched first (sim.refuse a)
  | sample {sim sim' : Simulation} {e : Entry Event} {r : Except Failure Bool}
      (h : Watched first sim) (underway : sim.Underway) (moves : sim.Moves e r sim')
      (event : e.event = .sample) : Watched first sim'

theorem Alike.watched (h : sim.Alike first) (hw : first.Watched sim') : sim.Alike sim' := by
  induction hw with
  | first => exact h
  | refuse a _ ih => exact (ih.symm.refuse a).symm
  | sample _ underway moves event ih => exact (moves.alike_of_sample ih.symm underway event).symm

/-- A run has been watched since its beginning, or since the last event that matters. -/
theorem Proceeds.cases_last (h : first.Proceeds log sim) :
    mattering log = [] ∧ first.Watched sim ∨
    ∃ log₀ sim₀ e sim₁, first.Proceeds log₀ sim₀ ∧ sim₀.Moves e (.ok true) sim₁ ∧
      e.event.matters ∧ sim₁.Watched sim ∧
      mattering log = mattering log₀ ++ [sim₀.occurrence e (.ok true)] := by
  induction h with
  | first => exact .inl ⟨rfl, .first⟩
  | refuse a _ ih =>
    rcases ih with ⟨hnone, hw⟩ | ⟨log₀, sim₀, e, sim₁, h₀, hm, he, hw, hlog⟩
    · exact .inl ⟨hnone, hw.refuse a⟩
    · exact .inr ⟨log₀, sim₀, e, sim₁, h₀, hm, he, hw.refuse a, hlog⟩
  | @move log sim sim' e h _ moves _ ih =>
    cases he : e.event.matters with
    | true =>
      refine .inr ⟨log, sim, e, sim', h, moves, he, .first, ?_⟩
      rw [mattering_concat, if_pos (by exact he)]
    | false =>
      have hsample : e.event = .sample := by
        by_contra hne
        rw [Event.matters_iff.2 hne] at he
        cases he
      have hsame : mattering (log ++ [sim.occurrence e (.ok true)]) = mattering log := by
        rw [mattering_concat, show (sim.occurrence e (.ok true)).event.matters = false from he]
        exact List.append_nil _
      rw [hsame]
      rcases ih with ⟨hnone, hw⟩ | ⟨log₀, sim₀, e₀, sim₁, h₀, hm, he₀, hw, hlog⟩
      · exact .inl ⟨hnone, .sample hw h.underway moves hsample⟩
      · exact .inr ⟨log₀, sim₀, e₀, sim₁, h₀, hm, he₀, .sample hw h.underway moves hsample, hlog⟩

/-! ## In lockstep -/

/-- After the same number of events that matter two runs are alike, and these events were the
same. -/
theorem Proceeds.alike (hfirst : first.Alike first') (h : first.Proceeds log sim)
    (h' : first'.Proceeds log' sim')
    (hlength : (mattering log).length = (mattering log').length) :
    mattering log = mattering log' ∧ sim.Alike sim' := by
  induction hn : (mattering log).length generalizing log log' sim sim' with
  | zero =>
    rw [hn] at hlength
    have hnone := List.eq_nil_of_length_eq_zero hn
    have hnone' := List.eq_nil_of_length_eq_zero hlength.symm
    refine ⟨hnone.trans hnone'.symm, ?_⟩
    rcases h.cases_last with ⟨-, hw⟩ | ⟨_, _, _, _, -, -, -, -, hlog⟩
    · rcases h'.cases_last with ⟨-, hw'⟩ | ⟨_, _, _, _, -, -, -, -, hlog'⟩
      · exact ((hfirst.watched hw').symm.watched hw).symm
      · simp [hlog'] at hnone'
    · simp [hlog] at hnone
  | succ n ih =>
    rcases h.cases_last with ⟨hnone, -⟩ | ⟨log₀, sim₀, e, sim₁, h₀, hm, he, hw, hlog⟩
    · simp [hnone] at hn
    rcases h'.cases_last with ⟨hnone', -⟩ | ⟨log₀', sim₀', e', sim₁', h₀', hm', he', hw', hlog'⟩
    · rw [hnone', hn] at hlength
      cases hlength
    rw [hlog, hlog', List.length_append, List.length_append] at hlength
    rw [hlog, List.length_append, List.length_singleton] at hn
    obtain ⟨hbefore, halike⟩ := ih h₀ h₀' (Nat.add_right_cancel hlength) (Nat.succ.inj hn)
    obtain ⟨hsame, hafter⟩ := hm.alike halike h₀.underway h₀'.underway hm' he he'
    refine ⟨?_, ((hafter.watched hw').symm.watched hw).symm⟩
    rw [hlog, hlog', hbefore, hsame]

/-- A run that is alike to one that has come to its end has no more to do. -/
theorem Proceeds.length_mattering_le (hfirst : first.Alike first') (h : first.Proceeds log last)
    (hc : last.Closes ended) (h' : first'.Proceeds log' sim') :
    (mattering log').length ≤ (mattering log).length := by
  induction h' with
  | first => exact Nat.zero_le _
  | refuse _ _ ih => exact ih
  | @move log' sim' _ e h' _ moves _ ih =>
    rw [mattering_concat, List.length_append]
    split
    · rename_i he
      refine Nat.lt_of_le_of_ne ih fun heq => ?_
      have hsample := (h.alike hfirst h' heq.symm).2.sample_of_closes hc moves
      exact Event.matters_iff.1 he hsample
    · exact ih

/-! ## The end -/

/-- What is left of an agent that has stopped does not depend on its slots. -/
theorem Underway.retired_agent (h : sim.Underway) {c : Craft} (hc : c ∈ sim.crafts) :
    c.retired.agent = c.agent.bare.retired := by
  obtain ⟨i, hi⟩ := List.getElem?_of_mem hc
  cases (h.stationed i c hi).stands with
  | waits _ _ slots => rw [Craft.retired, Agent.bare, ← slots]
  | runs running =>
    have hrun : c.agent.stage = .running := running
    simp only [Craft.retired, Agent.retired, Agent.bare, hrun, if_true]

/-- The same can be seen of two runs that are over, apart from samples. -/
structure SameOutcome (sim sim' : Simulation) : Prop where
  agents : sim.crafts.map (·.agent) = sim'.crafts.map (·.agent)
  time : sim.summary.time = sim'.summary.time
  crafts : sim.summary.crafts = sim'.summary.crafts
  stats : sim.summary.stats = sim'.summary.stats
  ledger : sim.ledger = sim'.ledger
  colors : sim.world.telemetry.recording.colors = sim'.world.telemetry.recording.colors

theorem Closes.now_eq (h : last.Closes ended) : ended.now = last.stopTime := by
  obtain ⟨_, _, _, _, heq⟩ := h.resembles
  rw [heq]
  rfl

/-- Runs that are alike come to the same end. -/
theorem Alike.sameOutcome (h : last.Alike last') (hu : last.Underway) (hu' : last'.Underway)
    (hc : last.Closes ended) (hc' : last'.Closes ended')
    (hclock : last.world.clock ≤ last.stopTime) (hclock' : last'.world.clock ≤ last'.stopTime) :
    SameOutcome ended ended' := by
  have hagent : ∀ c c', c ∈ last.crafts → c' ∈ last'.crafts →
      c.Alike (last.world.clock.max last'.world.clock) c' → c.retired.agent = c'.retired.agent := by
    intro c c' hc hc' halike
    rw [hu.retired_agent hc, hu'.retired_agent hc', halike.agent]
  have hlate : last.world.clock.max last'.world.clock ≤ last.stopTime := by
    rw [Duration.le_def, Duration.nanos_max]
    exact max_le hclock (h.stopTime ▸ hclock')
  have htime : ended.now = ended'.now := by rw [hc.now_eq, hc'.now_eq, h.stopTime]
  refine ⟨?_, htime, ?_, ?_, ?_, ?_⟩
  · rw [hc.crafts, hc'.crafts, List.map_map, List.map_map]
    exact h.swarm.crew.map_eq hagent
  · show ended.crafts.map (Craft.summary · ended.now) =
      ended'.crafts.map (Craft.summary · ended'.now)
    rw [← htime, hc.now_eq, hc.crafts, hc'.crafts, List.map_map, List.map_map]
    refine h.swarm.crew.map_eq fun c c' hmem hmem' halike => ?_
    have hposition : c.retired.track.positionAt last.stopTime =
        c'.retired.track.positionAt last.stopTime := halike.track.position _ hlate
    simp only [Function.comp_apply, Craft.summary, hagent c c' hmem hmem' halike, hposition]
  all_goals
    obtain ⟨_, _, _, _, heq⟩ := hc.resembles
    obtain ⟨_, _, _, _, heq'⟩ := hc'.resembles
    rw [heq, heq']
  · exact h.swarm.network.stats
  · exact h.swarm.ledger
  · show last.world.telemetry.recording.colors = last'.world.telemetry.recording.colors
    rw [← Telemetry.colors_unsampled, h.swarm.telemetry, Telemetry.colors_unsampled]

/-- Whole runs from beginnings that are alike have the same outcome, and their histories differ in
samples only. -/
theorem Reaches.sameOutcome (hfirst : first.Alike first') (hu : first.Underway)
    (hu' : first'.Underway) (hstart : first.world.clock = .zero)
    (hstart' : first'.world.clock = .zero) (hrun : first.Reaches log sim)
    (hrun' : first'.Reaches log' sim') (hf : sim.finished = true) (hf' : sim'.finished = true)
    (hallowed : sim.Allows) (hallowed' : sim'.Allows) :
    SameOutcome sim sim' ∧ mattering log = mattering log' := by
  obtain ⟨last, ended, _, hp, hc, rfl⟩ := hrun.exists_closes hu hf hallowed
  obtain ⟨last', ended', _, hp', hc', rfl⟩ := hrun'.exists_closes hu' hf' hallowed'
  have hlength := Nat.le_antisymm (hp'.length_mattering_le hfirst.symm hc' hp)
    (hp.length_mattering_le hfirst hc hp')
  obtain ⟨hlog, halike⟩ := hp.alike hfirst hp' hlength
  have hearly : ∀ {first last : Simulation} {log : List Occurrence}, first.Proceeds log last →
      first.world.clock = .zero → last.world.clock ≤ last.stopTime := fun h hzero =>
    h.clock_le (hzero ▸ Nat.zero_le _)
  obtain ⟨hagents, htime, hcrafts, hstats, hledger, hcolors⟩ := halike.sameOutcome hp.underway
    hp'.underway hc hc' (hearly hp hstart) (hearly hp' hstart')
  exact ⟨⟨hagents, htime, hcrafts, hstats, hledger, hcolors⟩, hlog⟩

/-! ## The beginning -/

/-- What compromises are planned depends on nothing but the settings and the addresses. -/
theorem buildLedger_unique {s s' : Settings} {ids : List Address} {j j' k k' : Journal}
    {ledger ledger' : Option Ledger} (hsame : s'.compromise = s.compromise)
    (h : buildLedger s ids j = .ok ledger j') (h' : buildLedger s' ids k = .ok ledger' k') :
    ledger = ledger' := by
  have hplan : ∀ {s : Settings} {j j' : Journal} {ledger : Option Ledger},
      buildLedger s ids j = .ok ledger j' → ∃ due, s.compromiseTime = .ok due ∧
        ledger = s.compromise.bind fun c => due.map fun due =>
          (planCompromise c.hostOctet due ids).ledger := by
    intro s j j' ledger h
    unfold buildLedger at h
    obtain ⟨due, hdue, h⟩ := ofExcept_bind_eq_ok h
    refine ⟨due, hdue, ?_⟩
    cases hc : s.compromise with
    | none =>
      rw [hc] at h
      cases h
      rfl
    | some c =>
      cases due with
      | none =>
        rw [hc] at h
        cases h
        rfl
      | some due =>
        rw [hc] at h
        simp only [Act.bind_apply, Act.modify_apply] at h
        cases hadded : (planCompromise c.hostOctet due ids).added with
        | error f =>
          rw [hadded] at h
          cases h
        | ok n =>
          rw [hadded] at h
          cases h
          rfl
  obtain ⟨due, hdue, rfl⟩ := hplan h
  obtain ⟨due', hdue', rfl⟩ := hplan h'
  have htimes : s'.compromiseTime = s.compromiseTime := by
    simp only [Settings.compromiseTime, hsame]
  cases hdue.symm.trans (htimes.symm.trans hdue')
  rw [hsame]

theorem link_eq_ok {s : Settings} {l : Link} (h : s.link = .ok l) :
    Settings.span s.linkLatency = .ok l.latency ∧ l.loss = s.packetLoss ∧ l.seed = s.seed := by
  unfold Settings.link at h
  cases hs : Settings.span s.linkLatency <;> rw [hs] at h <;> cases h
  exact ⟨rfl, rfl, rfl⟩

/-- Runs of settings that differ in the sample interval, and in the seed if the link loses nothing,
are alike in the beginning. -/
theorem alike_of_withPositions {s : Settings} {seed : UInt64} {interval : Float}
    {positions : List Vec3} {telemetry : Telemetry} {j j' k k' : Journal}
    (h : withPositions s positions telemetry j = .ok first j')
    (h' : withPositions { s with seed, sampleInterval := interval } positions telemetry k =
      .ok first' k') (hdraws : s.packetLoss ≤ 0.0 ∨ seed = s.seed) : first.Alike first' := by
  unfold withPositions at h h'
  obtain ⟨_, -, h⟩ := ofExcept_bind_eq_ok h
  obtain ⟨_, -, h'⟩ := ofExcept_bind_eq_ok h'
  split at h
  · cases h
  split at h'
  · cases h'
  obtain ⟨ids, hids, h⟩ := ofExcept_bind_eq_ok h
  obtain ⟨ids', hids', h'⟩ := ofExcept_bind_eq_ok h'
  cases hids.symm.trans hids'
  rw [Act.bind_apply] at h h'
  split at h
  case h_2 => cases h
  rename_i ledger j₁ hledger
  split at h'
  case h_2 => cases h'
  rename_i ledger' j₁' hledger'
  obtain rfl := buildLedger_unique rfl hledger hledger'
  obtain ⟨shared, hshared, h⟩ := ofExcept_bind_eq_ok h
  obtain ⟨shared', hshared', h'⟩ := ofExcept_bind_eq_ok h'
  cases hshared.symm.trans hshared'
  obtain ⟨stopTime, hstop, h⟩ := ofExcept_bind_eq_ok h
  obtain ⟨stopTime', hstop', h'⟩ := ofExcept_bind_eq_ok h'
  cases hstop.symm.trans hstop'
  obtain ⟨start, hstart, h⟩ := ofExcept_bind_eq_ok h
  obtain ⟨start', hstart', h'⟩ := ofExcept_bind_eq_ok h'
  cases hstart.symm.trans hstart'
  obtain ⟨link, hlink, h⟩ := ofExcept_bind_eq_ok h
  obtain ⟨link', hlink', h'⟩ := ofExcept_bind_eq_ok h'
  obtain ⟨hlatency, hloss, hseed⟩ := link_eq_ok hlink
  obtain ⟨hlatency', hloss', hseed'⟩ := link_eq_ok hlink'
  obtain ⟨period, -, h⟩ := ofExcept_bind_eq_ok h
  obtain ⟨period', -, h'⟩ := ofExcept_bind_eq_ok h'
  cases h
  cases h'
  refine ⟨⟨⟨rfl, fun i c c' hc hc' => ?_⟩, ⟨?_, ?_, ?_, rfl, rfl, rfl⟩, rfl, rfl⟩, .refl _ _, rfl⟩
  · cases hc.symm.trans hc'
    exact ⟨rfl, .refl _ _⟩
  · exact Except.ok.inj (hlatency.symm.trans hlatency')
  · exact hloss.trans hloss'.symm
  · refine hdraws.imp (fun h => ?_) fun h => ?_
    · show link.loss ≤ 0.0
      rwa [hloss]
    · show Generator.ofSeed link.seed = Generator.ofSeed link'.seed
      rw [hseed, hseed', h]

theorem Built.clock_eq {s : Settings} (h : first.Built s) : first.world.clock = .zero := by
  obtain ⟨_, -, hqueue⟩ := h.queue
  rw [World.clock, hqueue, EventQueue.clock_scheduleAll]
  rfl

/-! ## Whole runs -/

/-- Sampling does not disturb a run : two runs from the same positions, of settings that differ in
the sample interval only, have the same outcome when they are over, if no address of an agent
was refused. Every agent is the same then, with its table and its tallies, at the same position,
and so are the statistics of the network, the ledger and the colours that were reported. All that
was dispatched apart from samples was the same, and the numbers of events differ just by those of
the samples. -/
theorem sampling_invisible {s : Settings} {interval : Float} {positions : List Vec3}
    {telemetry : Telemetry} {j j' k k' : Journal}
    (hbuilt : withPositions s positions telemetry j = .ok first j')
    (hbuilt' : withPositions { s with sampleInterval := interval } positions telemetry k =
      .ok first' k') (hrun : first.Reaches log sim) (hrun' : first'.Reaches log' sim')
    (hf : sim.finished = true) (hf' : sim'.finished = true) (hallowed : sim.Allows)
    (hallowed' : sim'.Allows) :
    SameOutcome sim sim' ∧ mattering log = mattering log' ∧
      sim.summary.dispatched + (timesOf log' .sample).length =
        sim'.summary.dispatched + (timesOf log .sample).length := by
  have hb := built_of_withPositions hbuilt
  have hb' := built_of_withPositions hbuilt'
  have hfirst : first.Alike first' := alike_of_withPositions hbuilt hbuilt' (.inr rfl)
  obtain ⟨houtcome, hlog⟩ := hrun.sameOutcome hfirst hb.underway hb'.underway hb.clock_eq
    hb'.clock_eq hrun' hf hf' hallowed hallowed'
  refine ⟨houtcome, hlog, ?_⟩
  have hcount := (hrun.counted hb.underway hb.counted).dispatched
  have hcount' := (hrun'.counted hb'.underway hb'.counted).dispatched
  rw [length_eq_mattering_add] at hcount hcount'
  show sim.world.queue.dispatched + _ = sim'.world.queue.dispatched + _
  rw [hcount, hcount', hlog]
  omega

/-- A whole run of a leader and a follower with four samples in its second. -/
theorem exists_pair_resampled : ∃ first j' log last,
    withPositions { Settings.pair with sampleInterval := 0.25 }
      [⟨0.0, 0.0, 0.0⟩, ⟨1.0, 0.0, 0.0⟩] (.recorder {}) (Journal.ofThreshold none) =
        .ok first j' ∧ first.Reaches log last ∧ last.finished = true ∧ last.Allows := by
  have hsample : Duration.ofSeconds? 0.25 = some ⟨250000000, by decide⟩ := by decide +kernel
  refine exists_whole_run (Settings.pair_runnable.resampled (by rw [Settings.span, hsample])
    (by decide) ?_) (by decide +kernel)
  rw [Settings.pair_times.1]
  rintro _ ⟨⟩
  decide

theorem sampling_invisible_pair : ∃ first first' j' k' log log' last last',
    withPositions .pair [⟨0.0, 0.0, 0.0⟩, ⟨1.0, 0.0, 0.0⟩] (.recorder {})
      (Journal.ofThreshold none) = .ok first j' ∧
    withPositions { Settings.pair with sampleInterval := 0.25 }
      [⟨0.0, 0.0, 0.0⟩, ⟨1.0, 0.0, 0.0⟩] (.recorder {}) (Journal.ofThreshold none) =
        .ok first' k' ∧
    first.Reaches log last ∧ first'.Reaches log' last' ∧ last.finished = true ∧
    last'.finished = true ∧ last.Allows ∧ last'.Allows ∧ SameOutcome last last' := by
  obtain ⟨first, j', moves, last, hbuilt, hrun, hfinished, hrefused, -⟩ := exists_pair_run
  obtain ⟨first', k', log', last', hbuilt', hrun', hfinished', hallowed'⟩ := exists_pair_resampled
  have hallowed : last.Allows := fun a _ => by
    rw [hrefused]
    rfl
  exact ⟨first, first', j', k', _, log', last, last', hbuilt, hbuilt', hrun.reaches, hrun',
    hfinished, hfinished', hallowed, hallowed', (sampling_invisible hbuilt hbuilt' hrun.reaches
      hrun' hfinished hfinished' hallowed hallowed').1⟩

end Simulation

end SwarmFlight
