import SwarmFlight.Proofs.Run.Beginning
import SwarmFlight.Proofs.Run.Outcomes

/-!
# The addresses of a run

The agents of a run have the addresses from the base address on, and each of them knows all
of these (`Fleet`). So an address tells its agent (`Fleet.indexOf?_eq`), and a broadcast goes to
everyone but its sender (`Fleet.mem_audience`, `Fleet.length_audience`). All this depends on
the `roster` only, which never changes.
-/

namespace SwarmFlight

namespace Address

variable {a b : Address} {n m : Nat}

theorem offset?_eq_some_iff : a.offset? n = some b ↔ b.raw.toNat = a.raw.toNat + n := by
  have hb := b.raw.toNat_lt
  unfold offset?
  constructor
  · intro h
    split at h
    · rename_i hlt
      cases h
      exact UInt32.toNat_ofNat_of_lt' hlt
    · cases h
  · intro h
    rw [← h, if_pos (by exact hb), UInt32.ofNat_toNat]

theorem distanceFrom_of_offset? (h : a.offset? n = some b) : b.distanceFrom a = n := by
  have hb := b.raw.toNat_lt
  rw [offset?_eq_some_iff] at h
  rw [distanceFrom, UInt32.toNat_sub]
  omega

end Address

/-- With a follower there are two agents at least. -/
theorem Settings.two_le_agentCount {s : Settings} (h : s.followerCount ≠ 0) :
    2 ≤ s.agentCount := by
  have hpositive : s.followerCount.toNat ≠ 0 := fun hzero => h (UInt32.toNat_inj.1 hzero)
  have hsize : UInt32.size = 2 ^ 32 := rfl
  unfold agentCount
  omega

namespace Simulation

variable {sim sim' : Simulation} {i j : Nat} {c c' : Craft}

/-- The addresses of all agents. -/
def ids (sim : Simulation) : List Address := sim.crafts.map (·.agent.id)

/-- Who the agents are, and what they were told. -/
def roster (sim : Simulation) : List (Address × AgentSettings) :=
  sim.crafts.map fun c => (c.agent.id, c.agent.settings)

theorem ids_eq_of_roster (h : sim'.roster = sim.roster) : sim'.ids = sim.ids := by
  have hfst := congrArg (List.map Prod.fst) h
  simpa [roster, ids, Function.comp_def] using hfst

theorem length_eq_of_roster (h : sim'.roster = sim.roster) :
    sim'.crafts.length = sim.crafts.length := by
  simpa [roster] using congrArg List.length h

/-- Who an agent is does not change with a roster. -/
theorem exists_craft_of_roster (h : sim'.roster = sim.roster) (hc : sim'.crafts[i]? = some c') :
    ∃ c, sim.crafts[i]? = some c ∧ c.agent.id = c'.agent.id ∧
      c.agent.settings = c'.agent.settings := by
  have hi := congrArg (·[i]?) h
  simp only [roster, List.getElem?_map, hc, Option.map_some] at hi
  obtain ⟨c, hc, heq⟩ := Option.map_eq_some_iff.1 hi.symm
  obtain ⟨hid, hsettings⟩ := Prod.mk.inj heq
  exact ⟨c, hc, hid, hsettings⟩

/-- The addresses of a run are consecutive, there is room for all of them, and everybody knows
them. -/
structure Fleet (sim : Simulation) : Prop where
  size : sim.crafts.length ≤ swarmLimit
  address : ∀ i c, sim.crafts[i]? = some c →
    sim.settings.baseAddress.offset? i = some c.agent.id
  told : ∀ c ∈ sim.crafts, c.agent.settings.baseAddress = sim.settings.baseAddress ∧
    c.agent.settings.agentCount = sim.crafts.length

theorem Fleet.of_roster (h : sim.Fleet) (hr : sim'.roster = sim.roster)
    (hs : sim'.settings = sim.settings) : sim'.Fleet where
  size := length_eq_of_roster hr ▸ h.size
  address i c' hc' := by
    obtain ⟨c, hc, hid, -⟩ := exists_craft_of_roster hr hc'
    rw [hs, ← hid]
    exact h.address i c hc
  told c' hc' := by
    obtain ⟨i, hc'⟩ := List.getElem?_of_mem hc'
    obtain ⟨c, hc, -, hsettings⟩ := exists_craft_of_roster hr hc'
    rw [hs, length_eq_of_roster hr, ← hsettings]
    exact h.told c (List.mem_of_getElem? hc)

namespace Fleet

variable {a : Address}

theorem indexOf?_eq (h : sim.Fleet) (hc : sim.crafts[i]? = some c) :
    sim.indexOf? c.agent.id = some i := by
  have hdistance := Address.distanceFrom_of_offset? (h.address i c hc)
  have hlt := (List.getElem?_eq_some_iff.1 hc).1
  simp only [Simulation.indexOf?, hdistance, if_pos hlt]

/-- No two agents share an address. -/
theorem index_inj (h : sim.Fleet) (hc : sim.crafts[i]? = some c) (hc' : sim.crafts[j]? = some c')
    (hid : c.agent.id = c'.agent.id) : i = j := by
  have hi := h.indexOf?_eq hc
  rw [hid, h.indexOf?_eq hc'] at hi
  exact (Option.some.inj hi).symm

theorem mem_ids (hc : sim.crafts[i]? = some c) : c.agent.id ∈ sim.ids :=
  List.mem_map_of_mem (List.mem_of_getElem? hc)

theorem exists_of_mem_ids (ha : a ∈ sim.ids) :
    ∃ (i : Nat) (c : Craft), sim.crafts[i]? = some c ∧ c.agent.id = a := by
  obtain ⟨c, hc, rfl⟩ := List.mem_map.1 ha
  obtain ⟨i, hi⟩ := List.getElem?_of_mem hc
  exact ⟨i, c, hi, rfl⟩

theorem length_ids_le (h : sim.Fleet) : sim.ids.length ≤ swarmLimit := by
  rw [ids, List.length_map]
  exact h.size

theorem nodup_ids (h : sim.Fleet) : sim.ids.Nodup := by
  rw [List.nodup_iff_getElem?_ne_getElem?]
  intro i j hij hj heq
  have hi : i < sim.ids.length := hij.trans hj
  simp only [ids, List.length_map] at hi hj
  simp only [ids, List.getElem?_map, List.getElem?_eq_getElem hi, List.getElem?_eq_getElem hj,
    Option.map_some, Option.some.injEq] at heq
  exact hij.ne (h.index_inj (List.getElem?_eq_getElem hi) (List.getElem?_eq_getElem hj) heq)

/-- The addresses of a run are those from its base address on. -/
theorem map_some_ids (h : sim.Fleet) : sim.ids.map some =
    (List.range sim.crafts.length).map sim.settings.baseAddress.offset? := by
  refine List.ext_getElem? fun i => ?_
  by_cases hi : i < sim.crafts.length
  · simp [ids, hi, h.address i _ (List.getElem?_eq_getElem hi)]
  · simp [ids, hi]

theorem peers_eq (h : sim.Fleet) (hc : sim.crafts[i]? = some c) :
    c.agent.settings.peers = sim.ids := by
  obtain ⟨hbase, hcount⟩ := h.told c (List.mem_of_getElem? hc)
  have hroom : c.agent.settings.peerCount = sim.crafts.length := by
    have hlt := (List.getElem?_eq_some_iff.1 hc).1
    have hlast : sim.crafts.length - 1 < sim.crafts.length := by omega
    have hoffset := h.address _ _ (List.getElem?_eq_getElem hlast)
    rw [Address.offset?_eq_some_iff] at hoffset
    have hraw := (sim.crafts[sim.crafts.length - 1]).agent.id.raw.toNat_lt
    rw [AgentSettings.peerCount, hcount, hbase]
    have hsize : UInt32.size = 2 ^ 32 := rfl
    omega
  have hfilter := congrArg (List.filterMap id) h.map_some_ids.symm
  rw [List.filterMap_map, List.filterMap_map] at hfilter
  rw [AgentSettings.peers, hroom, hbase]
  simpa using hfilter

theorem mem_audience (h : sim.Fleet) (hc : sim.crafts[i]? = some c) :
    a ∈ c.agent.audience ↔ a ∈ sim.ids ∧ a ≠ c.agent.id := by
  rw [Agent.audience, h.peers_eq hc]
  simp

theorem nodup_audience (h : sim.Fleet) (hc : sim.crafts[i]? = some c) :
    c.agent.audience.Nodup := by
  rw [Agent.audience, h.peers_eq hc]
  exact h.nodup_ids.filter _

/-- A broadcast goes to everyone else. -/
theorem length_audience (h : sim.Fleet) (hc : sim.crafts[i]? = some c) :
    c.agent.audience.length = sim.crafts.length - 1 := by
  have heq : c.agent.audience = sim.ids.erase c.agent.id := by
    rw [Agent.audience, h.peers_eq hc, h.nodup_ids.erase_eq_filter]
    refine List.filter_congr fun a _ => ?_
    rw [bne, beq_eq_decide, decide_not]
  rw [heq, List.length_erase_of_mem (mem_ids hc), ids, List.length_map]

end Fleet

/-! ## A run that has just been built -/

theorem getElem?_of_mapM {α β : Type} {f : α → Except Failure β} {l : List α} {l' : List β}
    (h : l.mapM f = .ok l') {k : Nat} {b : β} (hb : l'[k]? = some b) :
    ∃ a, l[k]? = some a ∧ f a = .ok b := by
  induction l generalizing l' k with
  | nil =>
    cases h
    cases hb
  | cons a rest ih =>
    rw [List.mapM_cons] at h
    cases ha : f a with
    | error e =>
      rw [ha] at h
      cases h
    | ok x =>
      cases hr : rest.mapM f with
      | error e =>
        rw [ha, hr] at h
        cases h
      | ok xs =>
        rw [ha, hr] at h
        cases h
        cases k with
        | zero =>
          cases hb
          exact ⟨a, rfl, ha⟩
        | succ k => exact ih hr hb

theorem Built.length_eq {s : Settings} (h : sim.Built s) : sim.crafts.length = s.agentCount := by
  have hlength := length_mapM h.addresses
  rwa [List.length_map, List.length_range] at hlength

theorem Built.fleet {s : Settings} (h : sim.Built s) : sim.Fleet := by
  have hlength := h.length_eq
  have hlimit := Settings.validate_eq_ok_iff.1 h.valid (swarmLimit < s.agentCount,
    .swarmSizeExceeded) (by simp [Settings.checks])
  obtain ⟨shared, hshared, hcrafts⟩ := h.crafts
  refine ⟨?_, fun i c hc => ?_, fun c hc => ?_⟩
  · rw [hlength]
    simpa using hlimit
  · have hid : (sim.crafts.map (·.agent.id))[i]? = some c.agent.id := by
      rw [List.getElem?_map, hc]
      rfl
    obtain ⟨k, hk, haddress⟩ := getElem?_of_mapM h.addresses hid
    rw [List.getElem?_eq_some_iff] at hk
    obtain ⟨hlt, hk⟩ := hk
    rw [List.getElem_range] at hk
    subst hk
    rw [h.settings]
    split at haddress
    · rename_i id hoffset
      cases haddress
      exact hoffset
    · cases haddress
  · obtain ⟨i, hi⟩ := List.getElem?_of_mem hc
    obtain ⟨id, position, rfl⟩ := hcrafts i c hi
    obtain ⟨hbase, hcount⟩ := Settings.told_of_forAgents hshared
    exact ⟨hbase.trans (congrArg Settings.baseAddress h.settings.symm), hcount.trans hlength.symm⟩

end Simulation

end SwarmFlight
