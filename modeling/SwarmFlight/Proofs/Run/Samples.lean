import SwarmFlight.Proofs.Formation
import SwarmFlight.Proofs.Run.Colours

/-!
# The positions on record

Each sample adds one frame to what a recorder keeps, with the position of every agent at that time
as its track has it (`Simulation.shot`), and nothing else adds a position (`Effect.keeps_of_ne`). So
the positions on record are the frames of a run one after the other, at every point of it
(`Travels.keeps`). The samples tick through a run whatever else happens in it, the refusal of an
address included (`Sampling`), so that a whole run has one frame for each tick before its stop
time (`Travels.periodic_shotsOf`).

The addresses of a run ascend from its base address (`Fleet.pairwise_ids`), and each frame holds all
of them. This is what it takes for the frames to be found again in the record and for the first
agent to be taken for the leader, so the formation of a whole run always has a score
(`formation_on_record`).
-/

namespace SwarmFlight

open Formation (Frame)

/-- A recorder that keeps certain positions. -/
def Telemetry.Keeps (positions : List PositionRecord) (t : Telemetry) : Prop :=
  ∃ kept, t = .recorder kept ∧ kept.positions.toList = positions

/-- Where all agents are at an instant, as their tracks have it. -/
def Simulation.shot (sim : Simulation) (now : Instant) : Frame :=
  ⟨now, sim.crafts.map fun c => (c.agent.id, c.track.positionAt now)⟩

/-- The frames that are sampled in a step. -/
def Move.shots (m : Move) : List Frame :=
  (m.occurrences.filter (·.event = .sample)).map fun o => m.before.shot o.time

/-- The frames that are sampled on the way through some steps. -/
def shotsOf (moves : List Move) : List Frame := moves.flatMap Move.shots

theorem shotsOf_concat (moves : List Move) (m : Move) :
    shotsOf (moves ++ [m]) = shotsOf moves ++ m.shots := by
  rw [shotsOf, List.flatMap_append, List.flatMap_singleton]
  rfl

/-- A step that dispatches nothing samples nothing. -/
theorem shotsOf_concat_of_idle {m : Move} (h : m.occurrences = []) (moves : List Move) :
    shotsOf (moves ++ [m]) = shotsOf moves := by
  rw [shotsOf_concat, Move.shots, h]
  exact List.append_nil _

/-! ## What a recorder keeps -/

namespace Telemetry.Keeps

variable {t : Telemetry} {positions : List PositionRecord}

theorem reportColor (h : t.Keeps positions) (r : ColorRecord) :
    (t.reportColor r).1.Keeps positions := by
  obtain ⟨kept, rfl, hkept⟩ := h
  exact ⟨_, rfl, hkept⟩

theorem reportPosition (h : t.Keeps positions) (r : PositionRecord) :
    (t.reportPosition r).1.Keeps (positions ++ [r]) := by
  obtain ⟨kept, rfl, rfl⟩ := h
  exact ⟨_, rfl, Array.toList_push⟩

/-- The positions of some agents are kept in the order in which they are reported. -/
theorem foldl_reportPosition {w : World Event} (h : w.telemetry.Keeps positions)
    (report : Craft → PositionRecord) (crafts : List Craft) :
    (crafts.foldl (fun w c => w.reportPosition (report c)) w).telemetry.Keeps
      (positions ++ crafts.map report) := by
  induction crafts generalizing w positions with
  | nil =>
    rw [List.map_nil, List.append_nil]
    exact h
  | cons c rest ih =>
    rw [List.map_cons, List.append_cons]
    exact ih (w := w.reportPosition (report c)) (h.reportPosition (report c))

end Telemetry.Keeps

/-! ## Ticks -/

section Ticks

variable {start period stop : Nat} {times : List Nat}

theorem Periodic.ne_nil (h : Periodic start period stop times) (hstart : start < stop) :
    times ≠ [] :=
  List.ne_nil_of_length_pos ((h.2 0).2 (by rwa [Nat.zero_mul, Nat.add_zero]))

/-- Ticks that come to an end ascend. -/
theorem Periodic.pairwise_lt (h : Periodic start period stop times) (hstart : start < stop) :
    times.Pairwise (· < ·) := by
  have hperiod : 0 < period := by
    refine Nat.pos_of_ne_zero fun hzero => ?_
    have hlast := (h.2 times.length).2 (by rwa [hzero, Nat.mul_zero, Nat.add_zero])
    exact Nat.lt_irrefl _ hlast
  rw [h.1, ticks, List.pairwise_map]
  exact List.pairwise_lt_range.imp fun hlt =>
    Nat.add_lt_add_left (Nat.mul_lt_mul_of_pos_right hlt hperiod) _

end Ticks

namespace Simulation

variable {first sim sim₁ sim' last : Simulation} {log : List Occurrence} {moves : List Move}
  {event : Event} {e : Entry Event} {r : Except Failure Bool} {positions : List PositionRecord}
  {stop : Instant} {period : Duration}

/-! ## Frames on record -/

/-- A sample adds one frame to what is on record. -/
theorem Effect.keeps_sample (effect : sim.Effect .sample sim₁)
    (h : sim.world.telemetry.Keeps positions) : sim₁.world.telemetry.Keeps
      (positions ++ (sim.shot sim.world.clock).records) := by
  cases effect with
  | samples =>
    rw [Frame.records, shot, List.map_map]
    exact h.foldl_reportPosition _ _

/-- No other event adds a position. -/
theorem Effect.keeps_of_ne (effect : sim.Effect event sim₁) (hne : event ≠ .sample)
    (h : sim.world.telemetry.Keeps positions) : sim₁.world.telemetry.Keeps positions := by
  cases effect with
  | starts =>
    show (Act.begun _ _ _).world.telemetry.Keeps positions
    rw [telemetry_begun]
    split
    · exact h.reportColor _
    · exact h
  | broadcasts => exact h
  | computes => exact h
  | turns => exact h.reportColor _
  | @hears i c d => exact (sim.telemetry_arrived d).symm ▸ h
  | @misses d => exact (sim.telemetry_arrived d).symm ▸ h
  | samples => exact absurd rfl hne

/-- What is sampled in a step that dispatches an entry. -/
theorem Moves.shots (hm : sim.Moves e r sim') (hf : sim.finished = false) :
    Move.shots ⟨sim, r, sim'⟩ = if e.event = .sample then [sim.shot e.due] else [] := by
  rw [Move.shots, Move.occurrences, hm.occurrences hf, List.filter_singleton]
  show List.map _ (bif decide (e.event = .sample) then _ else _) = _
  by_cases h : e.event = .sample
  · rw [if_pos h, decide_eq_true h]
    rfl
  · rw [if_neg h, decide_eq_false h]
    rfl

/-- A step that dispatches an entry adds what it samples to what is on record. -/
theorem Moves.keeps (hm : sim.Moves e r sim') (hf : sim.finished = false)
    (h : sim.world.telemetry.Keeps positions) : sim'.world.telemetry.Keeps
      (positions ++ (Move.shots ⟨sim, r, sim'⟩).flatMap Frame.records) := by
  rw [hm.shots hf]
  cases hm with
  | @refused q i c popped takes early hstart =>
    have hne : e.event ≠ .sample := fun heq => nomatch hstart.symm.trans heq
    rw [if_neg hne, List.flatMap_nil, List.append_nil]
    exact h
  | @went q sim₁ popped takes early effect inReach =>
    have hbefore : (sim.withQueue q).world.telemetry.Keeps positions := h
    by_cases hsample : e.event = .sample
    · rw [hsample] at effect
      have hafter := effect.keeps_sample hbefore
      rw [show (sim.withQueue q).world.clock = e.due from takes.clock] at hafter
      rw [if_pos hsample, List.flatMap_singleton]
      exact hafter
    · rw [if_neg hsample, List.flatMap_nil, List.append_nil]
      exact effect.keeps_of_ne hsample hbefore

/-- What is on record at any point of a run are the frames that were sampled until then. -/
theorem Travels.keeps (h : first.Travels moves sim) (hu : first.Underway)
    (hfirst : first.world.telemetry.Keeps []) :
    sim.world.telemetry.Keeps ((shotsOf moves).flatMap Frame.records) := by
  have hrefuse : ∀ (positions : List PositionRecord) (sim : Simulation) (a : Address),
      sim.world.telemetry.Keeps positions → (sim.refuse a).world.telemetry.Keeps positions := by
    intro positions sim a hp
    obtain ⟨_, heq⟩ := sim.refuse_eq a
    rw [heq]
    exact hp
  have hall := @Travels.induction first sim moves
    (fun moves sim => sim.world.telemetry.Keeps ((shotsOf moves).flatMap Frame.records))
    (fun moves sim => sim.world.telemetry.Keeps ((shotsOf moves).flatMap Frame.records))
    h hu hfirst (fun _ sim a _ hp => hrefuse _ sim a hp)
    (fun moves sim e r sim' hu hm _ hp => ?_) (fun moves sim sim' _ hc hp => ?_)
    (fun _ sim a _ hq => hrefuse _ sim a hq) (fun moves sim hf hq => ?_)
  · exact hall.elim And.right And.right
  · rw [shotsOf_concat, List.flatMap_append]
    exact hm.keeps hu.unfinished hp
  · rw [@shotsOf_concat_of_idle ⟨sim, .ok false, sim'⟩ (hc.occurrences _)]
    obtain ⟨_, _, _, _, rfl⟩ := hc.resembles
    exact hp
  · rw [@shotsOf_concat_of_idle ⟨sim, .ok false, sim⟩ (if_pos hf)]
    exact hq

/-- The frames of a run were sampled when its samples took place. -/
theorem times_shotsOf (moves : List Move) : (shotsOf moves).map (·.time.nanos) =
    timesOf (moves.flatMap Move.occurrences) .sample := by
  rw [timesOf, shotsOf, List.filter_flatMap, List.map_flatMap, List.map_flatMap]
  congr 1
  funext m
  exact List.map_map

/-- Every frame of a run holds all agents. -/
theorem Travels.ids_of_mem_shotsOf (h : first.Travels moves sim) (hu : first.Underway) :
    ∀ f ∈ shotsOf moves, f.positions.map Prod.fst = first.ids := by
  induction h with
  | first => exact nofun
  | refuse _ _ ih => exact ih
  | @step moves sim sim' r h _ ih =>
    intro f hf
    rw [shotsOf_concat] at hf
    rcases List.mem_append.1 hf with hf | hf
    · exact ih f hf
    · obtain ⟨o, -, rfl⟩ := List.mem_map.1 hf
      rw [← ids_eq_of_roster (h.roster_eq hu)]
      exact List.map_map

/-! ## The ticks of the samples -/

/-- The samples of a run have been ticking from its beginning on. -/
structure Sampling (stop : Instant) (period : Duration) (log : List Occurrence)
    (sim : Simulation) : Prop where
  stopTime : sim.stopTime = stop
  samplePeriod : sim.samplePeriod = period
  early : ∀ o ∈ log, o.time < stop
  ticking : Ticking 0 period.nanos .sample log sim

theorem Moves.samplePeriod_eq (hm : sim.Moves e r sim') : sim'.samplePeriod = sim.samplePeriod := by
  cases hm with
  | refused => rfl
  | went _ _ _ effect =>
    obtain ⟨_, hleads⟩ := effect.leads
    exact hleads.samplePeriod

/-- The samples go on ticking also when an agent cannot start. -/
theorem Ticking.sample_of_moves {start : Nat}
    (h : Ticking start sim.samplePeriod.nanos .sample log sim) (hm : sim.Moves e r sim') :
    Ticking start sim.samplePeriod.nanos .sample (log ++ [sim.occurrence e r]) sim' := by
  cases hm with
  | went _ takes _ effect => exact h.sample_of_effect takes effect
  | @refused q i c popped takes early hstart =>
    have hne : e.event ≠ .sample := fun heq => nomatch hstart.symm.trans heq
    obtain ⟨t, hdues, hnext⟩ := h.next
    have hleft : (sim.dues .sample).Perm (q.dues .sample) := takes.dues_of_ne hne
    rw [hdues, List.singleton_perm] at hleft
    have hsame : ∀ r, timesOf (log ++ [sim.occurrence e r]) .sample = timesOf log .sample :=
      fun _ => timesOf_concat_of_ne hne
    refine ⟨?_, t, hleft.symm, ?_⟩
    · rw [hsame]
      exact h.times
    · rw [hsame]
      exact hnext

theorem Sampling.move (h : Sampling stop period log sim) (hm : sim.Moves e r sim') :
    Sampling stop period (log ++ [sim.occurrence e r]) sim' := by
  refine ⟨hm.stopTime_eq.trans h.stopTime, hm.samplePeriod_eq.trans h.samplePeriod,
    fun o ho => ?_, ?_⟩
  · rcases List.mem_append.1 ho with ho | ho
    · exact h.early o ho
    · rw [List.mem_singleton.1 ho, ← h.stopTime]
      exact hm.early
  · rw [← h.samplePeriod]
    exact (h.samplePeriod ▸ h.ticking).sample_of_moves hm

/-- The samples of a whole run took place at the ticks of their period. -/
theorem Reaches.periodic_sample (h : first.Reaches log last) (hu : first.Underway)
    (hfirst : Sampling stop period [] first) (hover : last.finished = true) :
    Periodic 0 period.nanos stop.nanos (timesOf log .sample) := by
  have hall := h.induction_to_end (P := Sampling stop period)
    (Q := fun log _ => Periodic 0 period.nanos stop.nanos (timesOf log .sample)) hu hfirst
    (fun _ sim a _ hp => ?_) (fun _ _ _ _ _ _ hm _ hp => hp.move hm)
    (fun _ sim _ _ hc hp => ?_) fun _ _ _ _ hq => hq
  · rcases hall with ⟨hu, -⟩ | ⟨-, hq⟩
    · exact nomatch hu.unfinished.symm.trans hover
    · exact hq
  · have hticking := hp.ticking.refuse a
    obtain ⟨_, heq⟩ := sim.refuse_eq a
    rw [heq] at hticking ⊢
    exact ⟨hp.stopTime, hp.samplePeriod, hp.early, hticking⟩
  · refine hp.ticking.periodic hp.early fun d hd => ?_
    obtain ⟨e, he, -, rfl⟩ := EventQueue.mem_dues.1 hd
    rw [← hp.stopTime]
    exact hc.late e he

/-- The frames of a whole run were sampled at the ticks of the period. -/
theorem Travels.periodic_shotsOf {s : Settings} (h : first.Travels moves last)
    (hb : first.Built s) (hstop : s.stopTime = .ok stop) (hperiod : s.samplePeriod = .ok period)
    (hover : last.finished = true) :
    Periodic 0 period.nanos stop.nanos ((shotsOf moves).map (·.time.nanos)) := by
  obtain ⟨t, hfits, hfirst⟩ := hb.onSchedule
  cases hstop.symm.trans hfits.stop
  cases hperiod.symm.trans hfits.period
  rw [times_shotsOf]
  exact h.reaches.periodic_sample hb.underway
    ⟨hfirst.stopTime, hfirst.samplePeriod, hfirst.early, hfirst.sample⟩ hover

/-! ## Addresses -/

/-- The addresses of a run ascend. -/
theorem Fleet.pairwise_ids (h : sim.Fleet) : sim.ids.Pairwise (·.raw < ·.raw) := by
  rw [ids, List.pairwise_map, List.pairwise_iff_getElem]
  intro i j hi hj hlt
  have hleft := Address.offset?_eq_some_iff.1 (h.address i _ (List.getElem?_eq_getElem hi))
  have hright := Address.offset?_eq_some_iff.1 (h.address j _ (List.getElem?_eq_getElem hj))
  rw [UInt32.lt_iff_toNat_lt, hleft, hright]
  exact Nat.add_lt_add_left hlt _

theorem Built.map_some_ids {s : Settings} (h : first.Built s) :
    first.ids.map some = (List.range s.agentCount).map s.baseAddress.offset? := by
  rw [h.fleet.map_some_ids, h.length_eq, h.settings]

/-- With a follower there are two addresses at least. -/
theorem Built.exists_ids_eq {s : Settings} (h : first.Built s) (hfollowers : s.followerCount ≠ 0) :
    ∃ leader second rest, first.ids = leader :: second :: rest := by
  have htwo : 2 ≤ first.ids.length := by
    rw [ids, List.length_map, h.length_eq]
    exact Settings.two_le_agentCount hfollowers
  obtain ⟨leader, rest, hids⟩ := List.exists_cons_of_length_pos (Nat.zero_lt_of_lt htwo)
  rw [hids, List.length_cons] at htwo
  obtain ⟨second, rest, rfl⟩ := List.exists_cons_of_length_pos (Nat.le_of_succ_le_succ htwo)
  exact ⟨leader, second, rest, hids⟩

/-! ## The formation on record -/

/-- Frames that hold all agents of a run, one after the other. -/
theorem Fleet.sequence (h : sim.Fleet) {shots : List Frame} (hsome : sim.ids ≠ [])
    (hids : ∀ f ∈ shots, f.positions.map Prod.fst = sim.ids)
    (htimes : (shots.map (·.time.nanos)).Pairwise (· < ·)) : Formation.Sequence shots := by
  rw [List.pairwise_map] at htimes
  refine ⟨htimes, fun f hf hnone => ?_, fun f hf => ?_⟩
  · have hsame := hids f hf
    rw [hnone] at hsame
    exact hsome hsame.symm
  · have hsorted := h.pairwise_ids
    rw [← hids f hf, List.pairwise_map] at hsorted
    exact hsorted

/-- A frame that holds all agents of a run starts with the first one. -/
theorem ledBy_of_ids {f : Frame} {leader second : Address} {rest : List Address}
    (hids : f.positions.map Prod.fst = leader :: second :: rest) : f.LedBy leader := by
  obtain ⟨⟨_, position⟩, others, hpositions, rfl, hothers⟩ := List.map_eq_cons_iff.1 hids
  obtain ⟨next, others, rfl, -, -⟩ := List.map_eq_cons_iff.1 hothers
  exact ⟨position, next, others, hpositions⟩

/-- The positions on record of a whole run with followers are the frames of its samples, one for each
tick of the period before the stop time, and each with the position of every agent at that time in
order of address. Their formation has a score, which counts just these frames and is measured from
the first agent. -/
theorem formation_on_record {s : Settings} {starts : List Vec3} {j j' : Journal}
    (hbuilt : withPositions s starts (.recorder {}) j = .ok first j')
    (hfollowers : s.followerCount ≠ 0) (hstop : s.stopTime = .ok stop)
    (hlong : Duration.zero < stop) (hperiod : s.samplePeriod = .ok period)
    (hrun : first.Travels moves last) (hover : last.finished = true)
    (weights : FormationWeights) : ∃ kept score leader,
      last.world.telemetry = .recorder kept ∧
      kept.positions.toList = (shotsOf moves).flatMap Frame.records ∧
      Periodic 0 period.nanos stop.nanos ((shotsOf moves).map (·.time.nanos)) ∧
      (∀ f ∈ shotsOf moves, f.positions.map Prod.fst = last.ids) ∧
      last.ids.map some = (List.range s.agentCount).map s.baseAddress.offset? ∧
      last.ids[0]? = some leader ∧
      Formation.frames kept.positions.toList = shotsOf moves ∧
      Formation.lowest kept.positions.toList = some leader ∧
      Formation.score weights kept.positions.toList = some score ∧
      (∀ k, k < score.frames ↔ k * period.nanos < stop.nanos) ∧
      Formation.mean ((shotsOf moves).filterMap (Frame.leaderDistance? leader)) =
        some score.leaderDistance := by
  have hb := built_of_withPositions hbuilt
  have hu := hb.underway
  obtain ⟨kept, hkept, htrack⟩ := hrun.keeps hu ⟨{}, telemetry_of_withPositions hbuilt, rfl⟩
  have hperiodic := hrun.periodic_shotsOf hb hstop hperiod hover
  have hsame : last.ids = first.ids := ids_eq_of_roster (hrun.roster_eq hu)
  have hids : ∀ f ∈ shotsOf moves, f.positions.map Prod.fst = last.ids := by
    rw [hsame]
    exact hrun.ids_of_mem_shotsOf hu
  obtain ⟨leader, second, rest, hleader⟩ := hb.exists_ids_eq hfollowers
  rw [← hsame] at hleader
  have hled : ∀ f ∈ shotsOf moves, f.LedBy leader := fun f hf =>
    ledBy_of_ids ((hids f hf).trans hleader)
  have hsequence := (hrun.fleet hu).sequence (by rw [hleader]; exact nofun) hids
    (hperiodic.pairwise_lt hlong)
  have hsome : shotsOf moves ≠ [] := fun hnone => hperiodic.ne_nil hlong (by rw [hnone]; rfl)
  obtain ⟨score, hscore, hcount, hdistance⟩ :=
    Formation.exists_score weights hsequence hsome hled
  rw [← htrack] at hscore
  refine ⟨kept, score, leader, hkept, htrack, hperiodic, hids, hsame ▸ hb.map_some_ids,
    by rw [hleader]; rfl, ?_, ?_, hscore, fun k => ?_, hdistance⟩
  · rw [htrack, Formation.frames_flatMap_records hsequence]
  · rw [htrack, Formation.lowest_flatMap_records hsequence hsome hled]
  · have hticks := hperiodic.2 k
    rw [List.length_map, Nat.zero_add] at hticks
    rw [hcount, hticks]

theorem formation_on_record_pair : ∃ first j' moves last kept score,
    withPositions .pair [⟨0.0, 0.0, 0.0⟩, ⟨1.0, 0.0, 0.0⟩] (.recorder {})
      (Journal.ofThreshold none) = .ok first j' ∧ first.Travels moves last ∧
      last.finished = true ∧ last.world.telemetry = .recorder kept ∧
      kept.positions.toList = (shotsOf moves).flatMap Frame.records ∧
      Formation.lowest kept.positions.toList = some (.ofOctets 10 1 1 1) ∧
      Formation.score .usual kept.positions.toList = some score ∧ score.frames = 20 := by
  obtain ⟨first, j', moves, last, hbuilt, hrun, hover, -, hids⟩ := exists_pair_run
  obtain ⟨kept, score, leader, hkept, htrack, -, -, -, hleader, -, hlowest, hscore, hframes, -⟩ :=
    formation_on_record hbuilt (by decide) Settings.pair_times.1 (by decide)
      Settings.pair_samplePeriod hrun hover .usual
  rw [hids] at hleader
  cases hleader
  refine ⟨first, j', moves, last, kept, score, hbuilt, hrun, hover, hkept, htrack, hlowest, hscore,
    ?_⟩
  -- a second holds twenty samples, the first of them at its beginning
  have hlast := (hframes 19).2 (by decide)
  have hnext := fun hlt => Nat.lt_irrefl _ ((hframes 20).1 hlt)
  exact Nat.le_antisymm (Nat.le_of_not_lt hnext) hlast

end Simulation

end SwarmFlight
