import SwarmFlight.Proofs.Run.Compromise
import SwarmFlight.Proofs.Run.Lossless

/-!
# What is on record of a compromise

An agent that turns is on record three times : in its own role, in the ledger and in the colours
that were reported. The three agree in every state of every run (`Concord`), as each event
leaves them in agreement (`Concord.of_effect`), and so does the end of the run. Addresses that
share their lowest octet lie too far apart for two agents of a swarm to be compromised
(`Concord.index_inj`), and nobody who was compromised ceases to be so (`Reaches.compromised`).
-/

namespace SwarmFlight

/-! ## Badges -/

/-- What can be seen of an agent that has to do with a compromise. -/
structure Badge where
  id : Address
  role : Role
  started : Bool
  compromised : Bool

/-- The badge of an agent. -/
def Agent.badge (a : Agent) : Badge := ⟨a.id, a.role, a.stage ≠ .uninitialized, a.compromised⟩

/-- The colours that the agent of an index took on, if its compromise took place at `fired` : that of
the leader at the start of the run, and that of a compromised agent. -/
def Badge.colors (i : Nat) (fired : Option Instant) (b : Badge) : List ColorRecord :=
  (if i = 0 ∧ b.started then [⟨.zero, b.id, leaderColor⟩] else []) ++
    if b.compromised then fired.toList.map fun time => ⟨time, b.id, compromisedColor⟩ else []

/-- The badge of the agent of an index agrees with the ledger, in which its compromise took place
at `fired` if it has. -/
structure Badge.Accords (i : Nat) (fired : Option Instant) (b : Badge) : Prop where
  role : b.role = .leader ↔ i = 0 ∨ b.compromised = true
  fired : b.compromised = fired.isSome
  first : i = 0 → b.compromised = false
  awake : b.compromised = true → b.started = true

theorem Craft.badge_retired (c : Craft) : c.retired.agent.badge = c.agent.badge := by
  unfold Craft.retired Agent.retired
  split
  · rename_i hrun
    simp only [Agent.badge, hrun]
    rfl
  · rfl

/-- One entry of a list adds something to what it comes to, and the others come to what they did. -/
theorem perm_flatten_mapIdx_set {α β : Type} {f g : Nat → α → List β} {l : List α} {i : Nat}
    {x y : α} {new : List β} (hx : l[i]? = some x) (hnew : (g i y).Perm (new ++ f i x))
    (hrest : ∀ j z, j ≠ i → l[j]? = some z → g j z = f j z) :
    ((l.set i y).mapIdx g).flatten.Perm (new ++ (l.mapIdx f).flatten) := by
  induction l generalizing f g i with
  | nil => cases hx
  | cons z rest ih =>
    cases i with
    | zero =>
      cases hx
      have hsame : rest.mapIdx (fun j => g (j + 1)) = rest.mapIdx fun j => f (j + 1) := by
        refine List.mapIdx_eq_mapIdx_iff.2 fun j hj => ?_
        exact hrest (j + 1) _ (Nat.succ_ne_zero j) (List.getElem?_eq_getElem hj)
      rw [List.set_cons_zero, List.mapIdx_cons, List.mapIdx_cons, hsame, List.flatten_cons,
        List.flatten_cons, ← List.append_assoc]
      exact hnew.append_right _
    | succ i =>
      have hz : g 0 z = f 0 z := hrest 0 z (Nat.succ_ne_zero i).symm rfl
      have hrec := @ih (fun j => f (j + 1)) (fun j => g (j + 1)) i hx hnew fun j z hj hz =>
        hrest (j + 1) z (by omega) hz
      rw [List.set_cons_succ, List.mapIdx_cons, List.mapIdx_cons, List.flatten_cons,
        List.flatten_cons, hz]
      exact (hrec.append_left _).trans (List.perm_append_comm_assoc _ _ _)

namespace Simulation

open Run

variable {first sim sim₁ sim' later : Simulation} {log log' : List Occurrence} {event : Event}
  {e : Entry Event} {r : Except Failure Bool} {octet : UInt8} {i j : Nat} {c c' : Craft} {b : Badge}

/-- The badges of all agents. -/
def badges (sim : Simulation) : List Badge := sim.crafts.map (·.agent.badge)

/-- When the compromise of an agent took place, by the ledger of the run. -/
def firedAt (sim : Simulation) (id : Address) : Option Instant := sim.ledger.bind (·.firedAt id)

/-- The colours that all agents took on, by their badges and the ledger. -/
def colorsDue (sim : Simulation) : List ColorRecord :=
  (sim.badges.mapIdx fun i b => b.colors i (sim.firedAt b.id)).flatten

/-- All that is on record of compromises agrees, and only agents with a certain host octet are
planned for. -/
structure Concord (octet : UInt8) (sim : Simulation) : Prop where
  badges : ∀ (i : Nat) (b : Badge), sim.badges[i]? = some b → b.Accords i (sim.firedAt b.id)
  colors : ∃ kept, sim.world.telemetry = .recorder kept ∧
    kept.colors.toList.Perm sim.colorsDue
  targets : ∀ l, sim.ledger = some l → ∀ a ∈ l.planned.keys, a.hostOctet = octet

theorem getElem?_badges (hc : sim.crafts[i]? = some c) : sim.badges[i]? = some c.agent.badge := by
  rw [badges, List.getElem?_map, hc]
  rfl

theorem exists_craft_of_badge (hb : sim.badges[i]? = some b) :
    ∃ c, sim.crafts[i]? = some c ∧ c.agent.badge = b := by
  rw [badges, List.getElem?_map] at hb
  exact Option.map_eq_some_iff.1 hb

/-- What does not touch the badges, the ledger or the colours leaves them in agreement. -/
theorem Concord.frame (h : Concord octet sim) (hbadges : sim'.badges = sim.badges)
    (hledger : sim'.ledger = sim.ledger)
    (htelemetry : sim'.world.telemetry.unsampled = sim.world.telemetry.unsampled) :
    Concord octet sim' := by
  have hfired : sim'.firedAt = sim.firedAt := by
    unfold firedAt
    rw [hledger]
  refine ⟨?_, ?_, ?_⟩
  · rw [hbadges, hfired]
    exact h.badges
  · obtain ⟨kept, hkept, hcolors⟩ := h.colors
    rw [hkept] at htelemetry
    cases hkept' : sim'.world.telemetry with
    | journal =>
      rw [hkept'] at htelemetry
      cases htelemetry
    | recorder kept' =>
      have hsame := congrArg (·.recording.colors) htelemetry
      rw [hkept'] at hsame
      refine ⟨kept', rfl, ?_⟩
      rw [show kept'.colors = kept.colors from hsame, colorsDue, hbadges, hfired]
      exact hcolors
  · rw [hledger]
    exact h.targets

/-! ## One event -/

theorem badges_played (i : Nat) (s : Scene Event) :
    (played sim i s).badges = sim.badges.set i s.agent.badge := List.map_set

theorem badges_played_of_eq (hc : sim.crafts[i]? = some c) {s : Scene Event}
    (hs : s.agent.badge = c.agent.badge) : (played sim i s).badges = sim.badges :=
  @map_set_of_eq i c _ _ (fun c => c.agent.badge) _ hc hs

/-- An agent takes on at most one colour, and changes its badge accordingly. -/
theorem Concord.worn (h : Concord octet sim) {b' : Badge} {new : List ColorRecord}
    (hb : sim.badges[i]? = some b) (hbadges : sim₁.badges = sim.badges.set i b')
    (hid : b'.id = b.id) (haccords : b'.Accords i (sim₁.firedAt b.id))
    (hnew : (b'.colors i (sim₁.firedAt b.id)).Perm (new ++ b.colors i (sim.firedAt b.id)))
    (hrest : ∀ j b, j ≠ i → sim.badges[j]? = some b → sim₁.firedAt b.id = sim.firedAt b.id)
    (htelemetry : ∀ kept, sim.world.telemetry = .recorder kept → ∃ kept',
      sim₁.world.telemetry = .recorder kept' ∧ kept'.colors.toList = kept.colors.toList ++ new)
    (htargets : ∀ l, sim₁.ledger = some l → ∀ a ∈ l.planned.keys, a.hostOctet = octet) :
    Concord octet sim₁ := by
  refine ⟨?_, ?_, htargets⟩
  · rw [hbadges]
    refine forall_getElem?_set (hid ▸ haccords) fun j x hj hx => ?_
    rw [hrest j x hj hx]
    exact h.badges j x hx
  · obtain ⟨kept, hkept, hcolors⟩ := h.colors
    obtain ⟨kept', hkept', happend⟩ := htelemetry kept hkept
    refine ⟨kept', hkept', ?_⟩
    have hadds : sim₁.colorsDue.Perm (new ++ sim.colorsDue) := by
      rw [colorsDue, hbadges]
      exact perm_flatten_mapIdx_set hb (hid ▸ hnew) fun j x hj hx => by rw [hrest j x hj hx]
    rw [happend]
    exact ((hcolors.append_right new).trans List.perm_append_comm).trans hadds.symm

/-- An agent starts, and the leader reports its colour. -/
theorem Concord.begun (h : Concord octet sim) (hzero : i = 0 → sim.world.clock = .zero)
    (hc : sim.crafts[i]? = some c) (hfresh : c.agent.stage = .uninitialized) (network : Network) :
    Concord octet (played sim i (Act.begun (scene sim c) (.duty i) network)) := by
  have hb := getElem?_badges hc
  have hself := h.badges i _ hb
  have hplain : c.agent.compromised = false := Bool.eq_false_iff.2 fun hturned => by
    have hawake := hself.awake hturned
    simp [Agent.badge, hfresh] at hawake
  have haccords : Badge.Accords i (sim.firedAt c.agent.id) { c.agent.badge with started := true } :=
    ⟨hself.role, hself.fired, hself.first, fun _ => rfl⟩
  have hnew : (Badge.colors i (sim.firedAt c.agent.id) { c.agent.badge with started := true }).Perm
      ((if i = 0 then [⟨.zero, c.agent.id, leaderColor⟩] else []) ++
        c.agent.badge.colors i (sim.firedAt c.agent.id)) := by
    simp [Badge.colors, Agent.badge, hfresh, hplain]
  refine h.worn hb (badges_played i _) rfl haccords hnew (fun _ _ _ _ => rfl) (fun kept hkept => ?_)
    h.targets
  have hleads : c.agent.role.isLeader = true ↔ i = 0 := by
    have hrole := hself.role
    rw [show c.agent.badge.compromised = false from hplain] at hrole
    refine Iff.trans ?_ (hrole.trans (or_iff_left Bool.false_ne_true))
    show c.agent.role.isLeader = true ↔ c.agent.role = .leader
    cases c.agent.role <;> simp [Role.isLeader]
  show ∃ kept', (Act.begun _ _ _).world.telemetry = .recorder kept' ∧ _
  rw [telemetry_begun, hkept]
  by_cases hi : i = 0
  · rw [if_pos (hleads.2 hi), if_pos hi, hzero hi]
    exact ⟨_, rfl, Array.toList_push⟩
  · rw [if_neg fun h => hi (hleads.1 h), if_neg hi]
    exact ⟨kept, rfl, (List.append_nil _).symm⟩

/-- A follower turns and reports its new colour, and the ledger is told. -/
theorem Concord.turned (h : Concord octet sim) (fleet : sim.Fleet) {l l' : Ledger}
    (hc : sim.crafts[i]? = some c) (hrun : c.agent.stage = .running)
    (hrole : c.agent.role = .follower) (hplain : c.agent.compromised = false)
    (hledger : sim.ledger = some l)
    (hfire : l.fire c.agent.id sim.world.clock = .ok (true, l')) :
    Concord octet { played sim i (Act.turned (scene sim c)) with ledger := some l' } := by
  have hb := getElem?_badges hc
  have hself := h.badges i _ hb
  have hi : i ≠ 0 := fun hi => by
    have hleader : c.agent.role = .leader := hself.role.2 (.inl hi)
    cases hrole.symm.trans hleader
  have hfired : ∀ a, firedAt { played sim i (Act.turned (scene sim c)) with ledger := some l' } a =
      if a = c.agent.id then some sim.world.clock else sim.firedAt a := fun a => by
    rw [show sim.firedAt a = l.firedAt a by rw [firedAt, hledger]; rfl]
    exact Ledger.firedAt_fire hfire a
  have hnow := (hfired c.agent.id).trans (if_pos rfl)
  have haccords : Badge.Accords i (some sim.world.clock)
      { c.agent.badge with role := .leader, compromised := true } := by
    refine ⟨iff_of_true rfl (.inr rfl), rfl, fun h => absurd h hi, fun _ => ?_⟩
    simp [Agent.badge, hrun]
  have hnew : (Badge.colors i (some sim.world.clock)
      { c.agent.badge with role := .leader, compromised := true }).Perm
        ([⟨sim.world.clock, c.agent.id, compromisedColor⟩] ++
          c.agent.badge.colors i (sim.firedAt c.agent.id)) := by
    simp [Badge.colors, Agent.badge, hi, hplain]
  refine h.worn hb (badges_played i _) rfl (hnow ▸ haccords) (hnow ▸ hnew) (fun j b hj hb => ?_)
    (fun kept hkept => ?_) fun l₁ hl₁ a ha => ?_
  · obtain ⟨x, hx, rfl⟩ := exists_craft_of_badge hb
    exact (hfired _).trans (if_neg fun hid => hj (fleet.index_inj hx hc hid))
  · show ∃ kept', (sim.world.telemetry.reportColor _).1 = .recorder kept' ∧ _
    rw [hkept]
    exact ⟨_, rfl, Array.toList_push⟩
  · cases hl₁
    obtain ⟨_, hget, -, -, hput⟩ := Ledger.fire_eq_ok hfire
    have hkey : c.agent.id ∈ l.planned.keys := Registry.isSome_get?_iff.1 (by rw [hget]; rfl)
    refine h.targets l hledger a ?_
    rcases (Registry.mem_keys_put? hput).1 ha with rfl | ha
    · exact hkey
    · exact ha

/-- Every event leaves what is on record in agreement. -/
theorem Concord.of_effect (h : Concord octet sim) (fleet : sim.Fleet)
    (hzero : event = .start 0 → sim.world.clock = .zero) (effect : sim.Effect event sim₁) :
    Concord octet sim₁ := by
  cases effect with
  | @starts i c network craft fresh =>
    exact h.begun (fun hi => hzero (hi ▸ rfl)) craft fresh network
  | turns craft running follower plain planned fires =>
    exact h.turned fleet craft running follower plain planned fires
  | broadcasts craft => exact h.frame (badges_played_of_eq craft rfl) rfl rfl
  | computes craft => exact h.frame (badges_played_of_eq craft rfl) rfl rfl
  | @hears i c d _ _ _ craft =>
    have craft : (sim.arrived d).crafts[i]? = some c := craft
    refine h.frame (badges_played_of_eq craft rfl) rfl ?_
    exact congrArg Telemetry.unsampled (sim.telemetry_arrived d)
  | @misses d => exact h.frame rfl rfl (congrArg Telemetry.unsampled (sim.telemetry_arrived d))
  | samples =>
    refine h.frame ?_ rfl (unsampled_foldl_reportPosition _ _ _)
    show (sim.crafts.map _).map _ = _
    rw [List.map_map]
    rfl

/-! ## Runs -/

/-- The agent of index 0 is to start at the beginning of the run. -/
def LeadsOff (sim : Simulation) : Prop :=
  ∀ e ∈ sim.world.queue.live, e.event = .start 0 → e.due = .zero

theorem LeadsOff.move (h : sim.LeadsOff) (hm : sim.Moves e r sim') : sim'.LeadsOff := by
  intro x hx hstart
  cases hm with
  | refused _ takes => exact h x (takes.live.mem_iff.2 (List.mem_cons_of_mem _ hx)) hstart
  | went popped takes early effect inReach =>
    rcases (Moves.went popped takes early effect inReach).mem_live hx with hx | ⟨-, hnot⟩
    · exact h x hx hstart
    · exact absurd hstart (hnot 0)

theorem Built.leadsOff {s : Settings} (h : first.Built s) : first.LeadsOff := by
  intro e he hstart
  obtain ⟨start, -, hlive⟩ := h.live
  obtain ⟨x, hx, hevent, hdue⟩ := EventQueue.exists_of_mem_newEntries (hlive.mem_iff.1 he)
  rw [hstart] at hevent
  rw [← hdue]
  simp only [firstEvents, List.cons_append, List.mem_cons, List.mem_append, List.mem_map,
    List.not_mem_nil, or_false] at hx
  rcases hx with rfl | ⟨i, -, rfl⟩ | rfl
  · rfl
  · cases hevent
  · cases hevent

/-- Compromises are planned for agents with one host octet only. -/
theorem Built.exists_octet {s : Settings} (h : first.Built s) :
    ∃ octet, ∀ l, first.ledger = some l → ∀ a ∈ l.planned.keys, a.hostOctet = octet := by
  cases hledger : first.ledger with
  | none => exact ⟨0, nofun⟩
  | some l =>
    obtain ⟨c, due, ids, -, -, rfl⟩ := h.ledger l hledger
    refine ⟨c.hostOctet, fun l hl a ha => ?_⟩
    cases hl
    have hnobody : ∀ b ∈ (Ledger.empty due).planned.keys, decide (b.hostOctet = c.hostOctet) :=
      fun b hb => absurd hb List.not_mem_nil
    exact of_decide_eq_true (Ledger.selects_of_planFrom hnobody a ha)

theorem Built.firedAt_eq_none {s : Settings} (h : first.Built s) (a : Address) :
    first.firedAt a = none := by
  cases hledger : first.ledger with
  | none => rw [firedAt, hledger, Option.bind_none]
  | some l =>
    obtain ⟨c, due, ids, -, -, rfl⟩ := h.ledger l hledger
    have hunfired : (planCompromise c.hostOctet due ids).ledger.Forall fun c => c.fired = none :=
      (Ledger.forall_planFrom (fun e he => absurd he List.not_mem_nil) fun _ _ => rfl).1
    rw [firedAt, hledger, Option.bind_some, ← Option.isNone_iff_eq_none,
      ← Option.isSome_eq_false_iff]
    exact Ledger.hasFired_eq_false hunfired a

theorem Built.badge {s : Settings} (h : first.Built s) (hb : first.badges[i]? = some b) :
    b.role = roleOf i ∧ b.started = false ∧ b.compromised = false := by
  obtain ⟨c, hc, rfl⟩ := exists_craft_of_badge hb
  obtain ⟨shared, -, hcrafts⟩ := h.crafts
  obtain ⟨id, position, rfl⟩ := hcrafts i c hc
  exact ⟨rfl, rfl, rfl⟩

/-- In a run that has just been built there is nothing on record yet. -/
theorem Built.concord {s : Settings} (h : first.Built s)
    (htelemetry : first.world.telemetry = .recorder {}) : ∃ octet, Concord octet first := by
  obtain ⟨octet, htargets⟩ := h.exists_octet
  refine ⟨octet, fun i b hb => ?_, ⟨{}, htelemetry, ?_⟩, htargets⟩
  · obtain ⟨hrole, -, hplain⟩ := h.badge hb
    refine ⟨?_, ?_, fun _ => hplain, fun hturned => ?_⟩
    · rw [hrole, hplain, roleOf]
      by_cases hi : i = 0 <;> simp [hi]
    · rw [hplain, h.firedAt_eq_none]
      rfl
    · rw [hplain] at hturned
      cases hturned
  · have hnothing : first.colorsDue = [] := by
      refine List.flatten_eq_nil_iff.2 fun colors hcolors => ?_
      obtain ⟨i, hi, rfl⟩ := List.mem_mapIdx.1 hcolors
      obtain ⟨-, hasleep, hplain⟩ := h.badge (List.getElem?_eq_getElem hi)
      simp [Badge.colors, hasleep, hplain]
    exact .of_eq hnothing.symm

theorem telemetry_of_withPositions {s : Settings} {positions : List Vec3} {telemetry : Telemetry}
    {j j' : Journal} (h : withPositions s positions telemetry j = .ok first j') :
    first.world.telemetry = telemetry := by
  unfold withPositions at h
  obtain ⟨_, -, h⟩ := ofExcept_bind_eq_ok h
  split at h
  · cases h
  obtain ⟨ids, -, h⟩ := ofExcept_bind_eq_ok h
  rw [Act.bind_apply] at h
  split at h
  · obtain ⟨_, -, h⟩ := ofExcept_bind_eq_ok h
    obtain ⟨_, -, h⟩ := ofExcept_bind_eq_ok h
    obtain ⟨_, -, h⟩ := ofExcept_bind_eq_ok h
    obtain ⟨_, -, h⟩ := ofExcept_bind_eq_ok h
    obtain ⟨_, -, h⟩ := ofExcept_bind_eq_ok h
    cases h
    rfl
  · cases h

theorem Concord.refuse (h : Concord octet sim) (a : Address) : Concord octet (sim.refuse a) := by
  obtain ⟨_, heq⟩ := sim.refuse_eq a
  rw [heq]
  exact h.frame rfl rfl rfl

theorem LeadsOff.refuse (h : sim.LeadsOff) (a : Address) : (sim.refuse a).LeadsOff := by
  obtain ⟨_, heq⟩ := sim.refuse_eq a
  rw [heq]
  exact h

theorem Concord.move (h : Concord octet sim) (hu : sim.Underway) (hleads : sim.LeadsOff)
    (hm : sim.Moves e r sim') : Concord octet sim' := by
  cases hm with
  | refused => exact h.frame rfl rfl rfl
  | @went q sim₁ popped takes early effect inReach =>
    have hzero : e.event = .start 0 → (sim.withQueue q).world.clock = .zero := fun hstart =>
      takes.clock.trans (hleads e takes.mem hstart)
    have hq : Concord octet (sim.withQueue q) := h.frame rfl rfl rfl
    exact (hq.of_effect (hu.fleet.of_roster rfl rfl) hzero effect).frame rfl rfl rfl

theorem Concord.close (h : Concord octet sim) (hc : sim.Closes sim') : Concord octet sim' := by
  have hbadges : sim'.badges = sim.badges := hc.map_crafts Craft.badge_retired
  obtain ⟨_, _, _, _, rfl⟩ := hc.resembles
  exact h.frame hbadges rfl rfl

/-- What is on record agrees in every state of a run. -/
theorem Reaches.concord (h : first.Reaches log sim) (hu : first.Underway) (hleads : first.LeadsOff)
    (hfirst : Concord octet first) : Concord octet sim := by
  have hall := h.induction_to_end (P := fun _ sim => sim.LeadsOff ∧ Concord octet sim)
    (Q := fun _ sim => Concord octet sim) hu ⟨hleads, hfirst⟩
    (fun _ _ a _ hp => ⟨hp.1.refuse a, hp.2.refuse a⟩)
    (fun _ _ _ _ _ hu hm _ hp => ⟨hp.1.move hm, hp.2.move hu hp.1 hm⟩)
    (fun _ _ _ _ hc hp => hp.2.close hc) fun _ _ a _ hq => hq.refuse a
  exact hall.elim (fun hp => hp.2.2) And.right

/-- Of the addresses of a run at most one has a certain host octet, so that at most one agent is
compromised. -/
theorem Concord.index_inj (h : Concord octet sim) (fleet : sim.Fleet)
    (hc : sim.crafts[i]? = some c) (hc' : sim.crafts[j]? = some c')
    (hturned : c.agent.compromised = true) (hturned' : c'.agent.compromised = true) : i = j := by
  have hoctet : ∀ k x, sim.crafts[k]? = some x → x.agent.compromised = true →
      k < swarmLimit ∧ (sim.settings.baseAddress.raw.toNat + k) % 256 = octet.toNat := by
    intro k x hx hturned
    have hlt := (List.getElem?_eq_some_iff.1 hx).1
    have haddress := fleet.address k x hx
    rw [Address.offset?_eq_some_iff] at haddress
    have hfired : (sim.firedAt x.agent.id).isSome :=
      (h.badges k _ (getElem?_badges hx)).fired.symm.trans hturned
    obtain ⟨time, htime⟩ := Option.isSome_iff_exists.1 hfired
    obtain ⟨l, hl, htime⟩ := Option.bind_eq_some_iff.1 htime
    have htarget := h.targets l hl _ (Ledger.mem_keys_of_firedAt htime)
    refine ⟨Nat.lt_of_lt_of_le hlt fleet.size, ?_⟩
    rw [← htarget, Address.hostOctet, UInt32.toNat_toUInt8, haddress]
  obtain ⟨hi, hoctet_i⟩ := hoctet i c hc hturned
  obtain ⟨hj, hoctet_j⟩ := hoctet j c' hc' hturned'
  simp only [swarmLimit] at hi hj
  omega

/-! ## Whole runs -/

/-- Who is compromised stays so in a step. -/
theorem Steps.compromised {p : Part} {e : Option (Entry Event)} (h : sim.Steps r e sim')
    (hp : sim.parts[i]? = some p) (hturned : p.compromised = true) :
    ∃ p', sim'.parts[i]? = some p' ∧ p'.compromised = true := by
  cases e with
  | none =>
    cases h with
    | still => exact ⟨p, hp, hturned⟩
    | @ended q _ _ _ _ _ ends =>
      have hp : (sim.withQueue q).parts[i]? = some p := hp
      refine ⟨p.ended, ?_, ?_⟩
      · rw [ends.parts, List.getElem?_map, hp, Option.map_some]
      · unfold Part.ended
        split <;> exact hturned
  | some e =>
    obtain ⟨q, -, touches⟩ := h.touches i
    cases touches with
    | spared part => exact ⟨p, part.trans hp, hturned⟩
    | starts _ before _ part =>
      cases hp.symm.trans before
      exact ⟨_, part, hturned⟩
    | turns _ _ _ part => exact ⟨_, part, rfl⟩

/-- Who is compromised stays so. -/
theorem Reaches.compromised (h : sim.Reaches log' later) (hs : sim.Sound)
    (hc : sim.crafts[i]? = some c) (hturned : c.agent.compromised = true) :
    ∃ c', later.crafts[i]? = some c' ∧ c'.agent.compromised = true := by
  have hp : sim.parts[i]? = some c.agent.part := by
    rw [getElem?_parts, hc]
    rfl
  obtain ⟨p, hp, hturned⟩ := h.induction
    (P := fun _ later => ∃ p, later.parts[i]? = some p ∧ p.compromised = true) hs ⟨_, hp, hturned⟩
    (fun _ _ _ hp => hp) fun _ _ _ _ _ _ hsteps ⟨_, hp, hturned⟩ => hsteps.compromised hp hturned
  obtain ⟨c', hc', rfl⟩ := exists_craft_of_part hp
  exact ⟨c', hc', hturned⟩

/-- In every state of every run an agent is compromised just if the ledger says so, it is a leader
just if it is the first or compromised, and the colours on record are that of the first agent, once
it has started, and one for each compromised agent from when the ledger says it turned. At most one
agent is compromised, never the first, and it stays so. -/
theorem compromise_on_record {s : Settings} {positions : List Vec3} {j j' : Journal}
    (hbuilt : withPositions s positions (.recorder {}) j = .ok first j')
    (hrun : first.Reaches log sim) :
    (∀ (i : Nat) (c : Craft), sim.crafts[i]? = some c →
      (c.agent.compromised = true ↔ ∃ l, sim.ledger = some l ∧ l.hasFired c.agent.id = true) ∧
      (c.agent.role = .leader ↔ i = 0 ∨ c.agent.compromised = true) ∧
      (i = 0 → c.agent.compromised = false)) ∧
    (∃ kept, sim.world.telemetry = .recorder kept ∧ kept.colors.toList.Perm sim.colorsDue) ∧
    (∀ (i i' : Nat) (c c' : Craft), sim.crafts[i]? = some c → sim.crafts[i']? = some c' →
      c.agent.compromised = true → c'.agent.compromised = true → i = i') ∧
    ∀ (i : Nat) (c : Craft), sim.crafts[i]? = some c → c.agent.compromised = true →
      ∀ log' later, sim.Reaches log' later →
        ∃ c', later.crafts[i]? = some c' ∧ c'.agent.compromised = true := by
  have hb := built_of_withPositions hbuilt
  obtain ⟨octet, hfirst⟩ := hb.concord (telemetry_of_withPositions hbuilt)
  have h := hrun.concord hb.underway hb.leadsOff hfirst
  obtain ⟨_, htravels, -⟩ := hrun.exists_travels
  have hfleet := htravels.fleet hb.underway
  refine ⟨fun i c hc => ?_, h.colors, fun i i' c c' hc hc' => h.index_inj hfleet hc hc',
    fun i c hc hturned log' later hlater => hlater.compromised (hrun.sound hb.sound) hc hturned⟩
  have hbadge := h.badges i _ (getElem?_badges hc)
  refine ⟨?_, hbadge.role, hbadge.first⟩
  rw [show c.agent.compromised = (sim.firedAt c.agent.id).isSome from hbadge.fired, firedAt]
  cases sim.ledger with
  | none => simp
  | some l => simp [Ledger.hasFired_eq]

/-- The follower of a pair is compromised in the end although the leader cannot start. -/
theorem exists_pair_turned : ∃ first j' log last c,
    withPositions .pair [⟨0.0, 0.0, 0.0⟩, ⟨1.0, 0.0, 0.0⟩] (.recorder {})
      (Journal.ofThreshold none) = .ok first j' ∧ first.Reaches log last ∧
      last.finished = true ∧ last.crafts[1]? = some c ∧ c.agent.role = .leader := by
  obtain ⟨first, j', c, log, sim, hbuilt, hcraft, hrole, hplanned, hrun, ⟨o, ho, hok⟩, -⟩ :=
    pair_started
  obtain ⟨hstop, hstart, htime⟩ := Settings.pair_times
  have hb := built_of_withPositions hbuilt
  have hfirst := hb.phase hcraft hrole hplanned hstart htime
  obtain ⟨n, log', hrun', hfinished⟩ := hrun.ends hb Settings.pair_runnable fun _ => []
  have hearly : Duration.max .zero ⟨500000000, by decide⟩ < first.stopTime := by
    rw [Except.ok.inj (hb.stopTime.symm.trans hstop)]
    decide
  rw [← hrun'.stopTime_eq hb.sound] at hearly
  have hleader : ∃ p, (before (fun _ => []) sim n).parts[1]? = some p ∧ p.role = .leader := by
    cases hrun'.phase hb.sound hfirst with
    | unstarted hu => exact absurd ⟨o, List.mem_append_left _ ho, hok⟩ hu.not_started
    | armed ha => cases ha.unfinished.symm.trans hfinished
    | turned ht => exact ⟨_, ht.part, ht.role⟩
    | missed hm => exact absurd hm.late (Duration.not_le.2 hearly)
  obtain ⟨p, hp, hrole'⟩ := hleader
  obtain ⟨c', hc', rfl⟩ := exists_craft_of_part hp
  exact ⟨first, j', _, _, c', hbuilt, hrun', hfinished, hc', hrole'⟩

theorem compromise_on_record_pair : ∃ first j' log last c l kept,
    withPositions .pair [⟨0.0, 0.0, 0.0⟩, ⟨1.0, 0.0, 0.0⟩] (.recorder {})
      (Journal.ofThreshold none) = .ok first j' ∧ first.Reaches log last ∧
      last.finished = true ∧ last.crafts[1]? = some c ∧ c.agent.role = .leader ∧
      c.agent.compromised = true ∧ last.ledger = some l ∧ l.hasFired c.agent.id = true ∧
      last.world.telemetry = .recorder kept ∧ kept.colors.toList.Perm last.colorsDue := by
  obtain ⟨first, j', log, last, c, hbuilt, hrun, hfinished, hc, hrole⟩ := exists_pair_turned
  obtain ⟨hagents, ⟨kept, hkept, hcolors⟩, -⟩ := compromise_on_record hbuilt hrun
  obtain ⟨hledger, hleader, -⟩ := hagents 1 c hc
  have hturned := (hleader.1 hrole).resolve_left Nat.one_ne_zero
  obtain ⟨l, hl, hfired⟩ := hledger.1 hturned
  exact ⟨first, j', log, last, c, l, kept, hbuilt, hrun, hfinished, hc, hrole, hturned, hl, hfired,
    hkept, hcolors⟩

end Simulation

end SwarmFlight
