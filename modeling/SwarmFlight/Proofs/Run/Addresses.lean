import SwarmFlight.Proofs.Run.Trail

/-!
# The range of addresses

A run takes the addresses from its base address on, one for each agent. It numbers its agents
(`addresses`), its agents enumerate their peers (`AgentSettings.peers`), and an address is
looked up (`craft?`), each in its own way : the first breaks off where 32 bits do not suffice,
the second leaves out what lies above them, and the third goes round there. In settings that
pass validation all addresses are below the top (`Settings.room_of_validate`), where the three
agree. So a run that was made of them has these addresses, tells them to its agents and finds
its agents by them, in every state that it reaches (`Spans`, `addresses_agree`).
-/

namespace SwarmFlight

namespace Address

theorem raw_injective : Function.Injective fun a : Address => a.raw.toNat := fun a b h => by
  cases a
  cases b
  exact congrArg mk (UInt32.toNat_inj.1 h)

theorem exists_offset? (a : Address) {n : Nat} (h : a.raw.toNat + n < UInt32.size) :
    ∃ b, a.offset? n = some b := ⟨_, if_pos h⟩

theorem offset?_eq_none (a : Address) {n : Nat} (h : UInt32.size ≤ a.raw.toNat + n) :
    a.offset? n = none := if_neg (Nat.not_lt.2 h)

/-- Going round leads back to an address that is not beyond the top of the range. -/
theorem eq_of_distanceFrom {a b base : Address} {n : Nat} (ha : a.distanceFrom base = n)
    (hb : base.offset? n = some b) : b = a := by
  have hbase := base.raw.toNat_lt
  have hbound := b.raw.toNat_lt
  have hraw := offset?_eq_some_iff.1 hb
  have htop := a.raw.toNat_lt
  -- `base.raw + n` is below `2 ^ 32`, so the difference determines `a`
  rw [distanceFrom, UInt32.toNat_sub] at ha
  exact raw_injective (show b.raw.toNat = a.raw.toNat by omega)

/-- Below the top of the range one address comes after the other. -/
theorem map_raw_filterMap_offset? {a : Address} {n : Nat}
    (h : a.raw.toNat + n ≤ UInt32.size) :
    ((List.range n).filterMap a.offset?).map (·.raw.toNat) = List.range' a.raw.toNat n := by
  induction n with
  | zero => rfl
  | succ n ih =>
    obtain ⟨b, hb⟩ := a.exists_offset? h
    have hraw := offset?_eq_some_iff.1 hb
    rw [List.range_succ, List.filterMap_append, List.map_append, ih (Nat.le_of_lt h),
      List.range'_1_concat, List.filterMap_cons_some hb, List.filterMap_nil, List.map_singleton,
      hraw]

/-- Above the top of the range there is nothing to enumerate. -/
theorem filterMap_offset?_min (a : Address) (n : Nat) :
    (List.range (min n (UInt32.size - a.raw.toNat))).filterMap a.offset? =
      (List.range n).filterMap a.offset? := by
  induction n with
  | zero => rw [Nat.zero_min]
  | succ n ih =>
    rw [List.range_succ, List.filterMap_append, ← ih]
    by_cases hlt : a.raw.toNat + n < UInt32.size
    · have hmin : min (n + 1) (UInt32.size - a.raw.toNat) =
          min n (UInt32.size - a.raw.toNat) + 1 := by omega
      have hn : min n (UInt32.size - a.raw.toNat) = n := by omega
      rw [hmin, hn, List.range_succ, List.filterMap_append]
    · have hmin : min (n + 1) (UInt32.size - a.raw.toNat) =
          min n (UInt32.size - a.raw.toNat) := by omega
      rw [hmin, List.filterMap_cons_none (a.offset?_eq_none (Nat.not_lt.1 hlt)),
        List.filterMap_nil, List.append_nil]

end Address

/-- An agent enumerates all addresses of its swarm that there are. -/
theorem AgentSettings.peers_eq (t : AgentSettings) :
    t.peers = (List.range t.agentCount).filterMap t.baseAddress.offset? :=
  t.baseAddress.filterMap_offset?_min t.agentCount

/-- Settings that pass validation have an address for each agent. -/
theorem Settings.room_of_validate {s : Settings} (h : s.validate = .ok ()) :
    s.agentCount = s.followerCount.toNat + 1 ∧
      s.baseAddress.raw.toNat + s.agentCount ≤ UInt32.size := by
  have hlimit := validate_eq_ok_iff.1 h (swarmLimit < s.agentCount, .swarmSizeExceeded)
    (by simp [checks])
  have hrange := validate_eq_ok_iff.1 h
    ((s.baseAddress.offset? s.followerCount.toNat).isNone, .badSetting .addressRange)
    (by simp [checks])
  simp only [decide_eq_false_iff_not, Nat.not_lt] at hlimit
  -- so few agents are counted as they are
  have hcount : s.agentCount = s.followerCount.toNat + 1 := by
    have hsmall : swarmLimit < UInt32.size - 1 := by decide
    unfold agentCount at hlimit ⊢
    omega
  obtain ⟨last, hlast⟩ := Option.isSome_iff_exists.1 (Option.isNone_eq_false_iff.1 hrange)
  rw [Address.offset?_eq_some_iff] at hlast
  have hlt := last.raw.toNat_lt
  have hsize : UInt32.size = 2 ^ 32 := rfl
  refine ⟨hcount, ?_⟩
  rw [hcount]
  omega

namespace Simulation

variable {s : Settings} {first sim : Simulation} {log : List Occurrence}

/-- Numbering does not break off below the top of the range. -/
theorem mapM_offset? {a : Address} {f : Failure} {l : List Nat}
    (h : ∀ i ∈ l, a.raw.toNat + i < UInt32.size) :
    l.mapM (fun i => match a.offset? i with
      | some id => Except.ok id
      | none => .error f) = .ok (l.filterMap a.offset?) := by
  induction l with
  | nil => rfl
  | cons i rest ih =>
    obtain ⟨b, hb⟩ := a.exists_offset? (h i List.mem_cons_self)
    rw [List.mapM_cons, ih fun j hj => h j (List.mem_cons_of_mem _ hj), hb,
      List.filterMap_cons_some hb]
    rfl

theorem addresses_of_validate (h : s.validate = .ok ()) :
    addresses s = .ok ((List.range s.agentCount).filterMap s.baseAddress.offset?) := by
  obtain ⟨-, hroom⟩ := Settings.room_of_validate h
  refine mapM_offset? fun i hi => ?_
  have hlt := List.mem_range.1 hi
  omega

/-- A run that is placed at random has the positions that were drawn. -/
theorem exists_withPositions_of_atRandom {telemetry : Telemetry} {j j' : Journal}
    (h : atRandom s telemetry j = .ok first j') :
    ∃ positions k, withPositions s positions telemetry k = .ok first j' := by
  unfold atRandom at h
  obtain ⟨_, -, h⟩ := ofExcept_bind_eq_ok h
  cases hlayout : Placement.initialLayout s.seed s.spawnRadius s.followerCount.toNat with
  | error halt =>
    rw [hlayout] at h
    cases h
  | ok drawn =>
    rw [hlayout] at h
    exact ⟨drawn.1, _, h⟩

/-- An address leads to the agent that has it. -/
theorem Fleet.craft?_eq_some_iff (h : sim.Fleet) {id : Address} {c : Craft} :
    sim.craft? id = some c ↔ c ∈ sim.crafts ∧ c.agent.id = id := by
  constructor
  · intro hc
    obtain ⟨i, hindex, hc⟩ := Option.bind_eq_some_iff.1 hc
    have hdistance : id.distanceFrom sim.settings.baseAddress = i := by
      dsimp only [indexOf?] at hindex
      split at hindex
      · exact Option.some.inj hindex
      · cases hindex
    exact ⟨List.mem_of_getElem? hc, Address.eq_of_distanceFrom hdistance (h.address i c hc)⟩
  · rintro ⟨hc, rfl⟩
    obtain ⟨i, hi⟩ := List.getElem?_of_mem hc
    rw [craft?, h.indexOf?_eq hi, Option.bind_some, hi]

/-- A run has the addresses from its base address on. They are known to its agents and lead to
them. -/
structure Spans (s : Settings) (sim : Simulation) : Prop where
  ids : sim.ids.map (·.raw.toNat) =
    List.range' s.baseAddress.raw.toNat (s.followerCount.toNat + 1)
  distinct : sim.ids.Nodup
  shared : ∃ shared, s.forAgents = .ok shared ∧ shared.peers = sim.ids
  peers : ∀ c ∈ sim.crafts, c.agent.settings.peers = sim.ids
  known : ∀ id, (sim.craft? id).isSome ↔ id ∈ sim.ids
  craft? : ∀ id c, sim.craft? id = some c ↔ c ∈ sim.crafts ∧ c.agent.id = id

theorem Built.ids_eq (h : first.Built s) :
    first.ids = (List.range s.agentCount).filterMap s.baseAddress.offset? :=
  Except.ok.inj (h.addresses.symm.trans (addresses_of_validate h.valid))

theorem Built.spans (h : first.Built s) (hrun : first.Reaches log sim) : sim.Spans s := by
  obtain ⟨hcount, hroom⟩ := Settings.room_of_validate h.valid
  obtain ⟨moves, htravels, -⟩ := hrun.exists_travels
  have hfleet : sim.Fleet := htravels.fleet h.underway
  have hids : sim.ids = (List.range s.agentCount).filterMap s.baseAddress.offset? :=
    (ids_eq_of_roster (htravels.roster_eq h.underway)).trans h.ids_eq
  refine ⟨?_, hfleet.nodup_ids, ?_, fun c hc => ?_, fun id => ?_,
    fun id c => hfleet.craft?_eq_some_iff⟩
  · rw [hids, Address.map_raw_filterMap_offset? hroom, hcount]
  · obtain ⟨shared, hshared, -⟩ := h.crafts
    obtain ⟨hbase, hagents⟩ := Settings.told_of_forAgents hshared
    exact ⟨shared, hshared, by rw [shared.peers_eq, hbase, hagents, hids]⟩
  · obtain ⟨i, hi⟩ := List.getElem?_of_mem hc
    exact hfleet.peers_eq hi
  · rw [Option.isSome_iff_exists, ids, List.mem_map]
    exact exists_congr fun c => hfleet.craft?_eq_some_iff

/-- However a run is made of settings that pass validation, the ways in which its addresses are
numbered, enumerated and looked up agree in every state. -/
theorem addresses_agree (hvalid : s.validate = .ok ()) :
    (∃ ids, addresses s = .ok ids ∧
      ids.map (·.raw.toNat) = List.range' s.baseAddress.raw.toNat (s.followerCount.toNat + 1) ∧
      ids.Nodup ∧ ∀ shared, s.forAgents = .ok shared → shared.peers = ids) ∧
    ∀ telemetry j first j',
      ((∃ positions, withPositions s positions telemetry j = .ok first j') ∨
        atRandom s telemetry j = .ok first j') →
      ∀ log sim, first.Reaches log sim → sim.Spans s := by
  obtain ⟨hcount, hroom⟩ := Settings.room_of_validate hvalid
  have hraw := Address.map_raw_filterMap_offset? hroom
  refine ⟨⟨_, addresses_of_validate hvalid, hcount ▸ hraw, ?_, fun shared hshared => ?_⟩,
    fun telemetry j first j' hmade log sim hrun => ?_⟩
  · exact List.Nodup.of_map _ (hraw ▸ List.nodup_range')
  · obtain ⟨hbase, hagents⟩ := Settings.told_of_forAgents hshared
    rw [shared.peers_eq, hbase, hagents]
  · rcases hmade with ⟨positions, hbuilt⟩ | hbuilt
    · exact (built_of_withPositions hbuilt).spans hrun
    · obtain ⟨positions, k, hbuilt⟩ := exists_withPositions_of_atRandom hbuilt
      exact (built_of_withPositions hbuilt).spans hrun

/-- A leader and a follower have the last two addresses of all, and the one after them, going
round, is nobody's. -/
theorem addresses_agree_at_top : ∃ first j',
    withPositions { Settings.pair with baseAddress := .ofOctets 255 255 255 254 }
      [⟨0.0, 0.0, 0.0⟩, ⟨1.0, 0.0, 0.0⟩] (.recorder {}) (Journal.ofThreshold none) = .ok first j' ∧
      first.ids = [.ofOctets 255 255 255 254, .ofOctets 255 255 255 255] ∧
      (first.craft? (.ofOctets 255 255 255 255)).isSome ∧
      ¬ (first.craft? (.ofOctets 0 0 0 0)).isSome := by
  have hbuilds : (Building.value? (withPositions
      { Settings.pair with baseAddress := .ofOctets 255 255 255 254 }
      [⟨0.0, 0.0, 0.0⟩, ⟨1.0, 0.0, 0.0⟩] (.recorder {}) (Journal.ofThreshold none))).isSome := by
    decide +kernel
  cases hbuilt : withPositions { Settings.pair with baseAddress := .ofOctets 255 255 255 254 }
      [⟨0.0, 0.0, 0.0⟩, ⟨1.0, 0.0, 0.0⟩] (.recorder {}) (Journal.ofThreshold none) with
  | error f j' =>
    rw [hbuilt] at hbuilds
    cases hbuilds
  | ok first j' =>
    have hspans := (addresses_agree (built_of_withPositions hbuilt).valid).2 _ _ first j'
      (.inl ⟨_, hbuilt⟩) _ _ .first
    have hids : first.ids = [.ofOctets 255 255 255 254, .ofOctets 255 255 255 255] :=
      List.map_injective_iff.2 Address.raw_injective hspans.ids
    refine ⟨first, j', rfl, hids, ?_, ?_⟩
    · rw [hspans.known, hids]
      decide
    · rw [hspans.known, hids]
      decide

end Simulation

end SwarmFlight
