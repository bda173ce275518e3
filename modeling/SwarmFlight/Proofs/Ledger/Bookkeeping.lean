import SwarmFlight.Proofs.Dialogue
import SwarmFlight.Proofs.Ledger

/-!
# What a ledger has on record

A ledger is asked to plan compromises and told of those that took place, in any order and any
number of times. `Follows` says how the ledger follows from all calls so far : what was added
by planning, even by a call that broke off for want of room, is numbered on, and what was
noted of an agent first is what counts. Each call keeps it (`Follows.serve`). So the record is
`Accurate` after any calls (`accurate_calls`).
-/

namespace SwarmFlight

namespace Ledger

/-- What a ledger can be asked for. -/
inductive Request where
  /-- Plan the compromise of the selected followers among some candidates. -/
  | plan (selects : Address → Bool) (candidates : List (Address × Role))
  /-- Note that the compromise of an agent took place. -/
  | fire (id : Address) (now : Instant)

/-- What a ledger answers. -/
inductive Answer where
  /-- How many compromises were added, or why planning broke off. -/
  | planned (added : Except Failure Nat)
  /-- Whether it was the first time, or why it is not noted. -/
  | fired (first : Except Failure Bool)

/-- Answer a request. -/
def serve (l : Ledger) : Request → Answer × Ledger
  | .plan selects candidates =>
    let p := l.plan selects candidates
    (.planned p.added, p.ledger)
  | .fire id now =>
    match l.fire id now with
    | .ok (first, l') => (.fired (.ok first), l')
    | .error f => (.fired (.error f), l)

/-- The agents that compromises are planned for. -/
def targets (l : Ledger) : List Address := l.compromises.map Compromise.target

/-- The requests to a ledger so far with their answers. -/
abbrev Log := List (Call Request Answer)

namespace Log

/-- The instants that were noted for an agent, once the agent was in the ledger. -/
def noted (log : Log) (id : Address) : List Instant :=
  log.filterMap fun c =>
    match c.request, c.answer with
    | .fire target now, .fired (.ok _) => if target = id then some now else none
    | _, _ => none

/-- The instants that were noted for an agent and answered to be the first. -/
def firsts (log : Log) (id : Address) : List Instant :=
  log.filterMap fun c =>
    match c.request, c.answer with
    | .fire target now, .fired (.ok true) => if target = id then some now else none
    | _, _ => none

/-- How many times an answer was that a compromise took place for the first time. -/
def countFirsts (log : Log) : Nat :=
  log.countP fun c =>
    match c.answer with
    | .fired (.ok true) => true
    | _ => false

/-- An agent was selected for planning when it was presented as a follower. -/
def Chose (log : Log) (id : Address) : Prop := ∃ selects candidates answer,
  ⟨.plan selects candidates, answer⟩ ∈ log ∧ selects id ∧ (id, .follower) ∈ candidates

theorem Chose.append {log : Log} {id : Address} (h : log.Chose id) (c : Call Request Answer) :
    Chose (log ++ [c]) id := by
  obtain ⟨selects, candidates, answer, hmem, hchosen⟩ := h
  exact ⟨selects, candidates, answer, List.mem_append_left _ hmem, hchosen⟩

end Log

variable {l l' : Ledger} {id : Address} {now due : Instant} {log : Log}

/-! ## How a ledger follows from the calls -/

/-- The ledger that has come of some calls. -/
structure Follows (due : Instant) (log : Log) (l : Ledger) : Prop where
  same : l.due = due
  next : l.nextNumber = 1 + l.plannedCount
  numbers : l.compromises.map Compromise.number = List.range' 1 l.plannedCount
  targets : l.targets = l.planned.keys
  dues : ∀ c ∈ l.compromises, c.due = due
  chosen : ∀ id ∈ l.planned.keys, log.Chose id
  silent : ∀ id, id ∉ l.planned.keys → log.noted id = []
  fired : ∀ id, l.firedAt id = (log.noted id).head?
  once : ∀ id, log.firsts id = (l.firedAt id).toList
  count : l.firedCount = log.countFirsts

theorem Follows.empty (due : Instant) : Follows due [] (Ledger.empty due) where
  same := rfl
  next := rfl
  numbers := rfl
  targets := rfl
  dues := fun _ hc => absurd hc List.not_mem_nil
  chosen := fun _ hid => absurd hid List.not_mem_nil
  silent := fun _ _ => rfl
  fired := fun _ => rfl
  once := fun _ => rfl
  count := rfl

theorem mem_compromises_iff {c : Compromise} :
    c ∈ l.compromises ↔ ∃ id, l.planned.get? id = some c := by
  simp [compromises, Registry.values, Registry.get?_eq_some_iff]

theorem firedAt_eq_none (h : id ∉ l.planned.keys) : l.firedAt id = none := by
  rw [← Registry.isSome_get?_iff, Option.not_isSome_iff_eq_none] at h
  rw [firedAt, h, Option.bind_none]

/-! ## Planning -/

section

variable {selects : Address → Bool} {candidates : List (Address × Role)} {new : List Compromise}

theorem Adds.compromises (h : l.Adds selects candidates new l') :
    l'.compromises = l.compromises ++ new := by
  rw [Ledger.compromises, Registry.values, h.entries, List.map_append, List.map_map]
  exact congrArg _ (List.map_id new)

theorem Adds.plannedCount (h : l.Adds selects candidates new l') :
    l'.plannedCount = l.plannedCount + new.length := by
  rw [Ledger.plannedCount, Registry.size, h.entries, List.length_append, List.length_map]
  rfl

/-- What is added has not taken place. -/
theorem Adds.firedAt (h : l.Adds selects candidates new l') (id : Address) :
    l'.firedAt id = l.firedAt id := by
  by_cases hid : id ∈ l.planned.keys
  · obtain ⟨c, hc⟩ := Option.isSome_iff_exists.1 (Registry.isSome_get?_iff.2 hid)
    have hc' : (id, c) ∈ l'.planned.entries :=
      h.entries ▸ List.mem_append_left _ (Registry.get?_eq_some_iff.1 hc)
    rw [Ledger.firedAt, Registry.get?_eq_some_iff.2 hc', Ledger.firedAt, hc]
  · rw [firedAt_eq_none hid, Ledger.firedAt]
    cases hget : l'.planned.get? id with
    | none => rfl
    | some c =>
      have hmem := Registry.get?_eq_some_iff.1 hget
      rw [h.entries, List.mem_append, List.mem_map] at hmem
      rcases hmem with hold | ⟨c', hc', heq⟩
      · exact absurd (List.mem_map_of_mem hold) hid
      · obtain ⟨-, rfl⟩ := Prod.mk.inj heq
        exact (h.fresh c' hc').2

theorem Adds.firedCount (h : l.Adds selects candidates new l') :
    l'.firedCount = l.firedCount := by
  have hnew : new.countP (·.fired.isSome) = 0 :=
    List.countP_eq_zero.2 fun c hc => by simp [(h.fresh c hc).2]
  rw [Ledger.firedCount, h.compromises, List.countP_append, hnew]
  rfl

theorem Follows.plan (h : Follows due log l) (hadds : l.Adds selects candidates new l')
    (added : Except Failure Nat) :
    Follows due (log ++ [⟨.plan selects candidates, .planned added⟩]) l' where
  same := hadds.due.trans h.same
  next := by rw [hadds.nextNumber, h.next, hadds.plannedCount, Nat.add_assoc]
  numbers := by
    rw [hadds.compromises, List.map_append, h.numbers, hadds.numbers, h.next,
      hadds.plannedCount, List.range'_append_1]
  targets := by
    rw [Ledger.targets, hadds.compromises, List.map_append, hadds.keys, ← h.targets]
    rfl
  dues c hc := by
    rw [hadds.compromises, List.mem_append] at hc
    rcases hc with hc | hc
    · exact h.dues c hc
    · exact (hadds.fresh c hc).1.trans h.same
  chosen id hid := by
    rw [hadds.keys, List.mem_append, List.mem_map] at hid
    rcases hid with hid | ⟨c, hc, rfl⟩
    · exact (h.chosen id hid).append _
    · exact ⟨selects, candidates, _, List.mem_append_right _ List.mem_cons_self,
        hadds.chosen c hc⟩
  silent id hid := by
    have hold : id ∉ l.planned.keys := fun hmem => hid (hadds.keys ▸ List.mem_append_left _ hmem)
    simpa [Log.noted] using h.silent id hold
  fired id := by simpa [Log.noted] using (hadds.firedAt id).trans (h.fired id)
  once id := by simpa [Log.firsts, hadds.firedAt] using h.once id
  count := by simpa [Log.countFirsts] using hadds.firedCount.trans h.count

end

/-! ## Taking place -/

theorem Log.noted_concat (log : Log) (target : Address) (now : Instant) (first : Bool)
    (id : Address) : Log.noted (log ++ [⟨.fire target now, .fired (.ok first)⟩]) id =
      log.noted id ++ if target = id then [now] else [] := by
  by_cases h : target = id <;> simp [noted, h]

theorem Log.firsts_concat (log : Log) (target : Address) (now : Instant) (id : Address) :
    Log.firsts (log ++ [⟨.fire target now, .fired (.ok true)⟩]) id =
      log.firsts id ++ if target = id then [now] else [] := by
  by_cases h : target = id <;> simp [firsts, h]

theorem Follows.unknown (h : Follows due log l) (id : Address) (now : Instant) (f : Failure) :
    Follows due (log ++ [⟨.fire id now, .fired (.error f)⟩]) l :=
  { h with
    chosen := fun a ha => (h.chosen a ha).append _
    silent := fun a ha => by simpa [Log.noted] using h.silent a ha
    fired := fun a => by simpa [Log.noted] using h.fired a
    once := fun a => by simpa [Log.firsts] using h.once a
    count := by simpa [Log.countFirsts] using h.count }

/-- What is noted again changes nothing. -/
theorem Follows.again (h : Follows due log l) (hid : id ∈ l.planned.keys)
    (hfired : (l.firedAt id).isSome) (now : Instant) :
    Follows due (log ++ [⟨.fire id now, .fired (.ok false)⟩]) l :=
  { h with
    chosen := fun a ha => (h.chosen a ha).append _
    silent := fun a ha => by
      have hne : id ≠ a := fun heq => ha (heq ▸ hid)
      rw [Log.noted_concat, if_neg hne, List.append_nil, h.silent a ha]
    fired := fun a => by
      rw [Log.noted_concat, List.head?_append, ← h.fired]
      split
      · rename_i heq
        subst heq
        rw [Option.or_of_isSome hfired]
      · exact Option.or_none.symm
    once := fun a => by simpa [Log.firsts] using h.once a
    count := by simpa [Log.countFirsts] using h.count }

/-- What is noted for the first time is what stays on record. -/
theorem Follows.first (h : Follows due log l) (hfire : l.fire id now = .ok (true, l')) :
    Follows due (log ++ [⟨.fire id now, .fired (.ok true)⟩]) l' := by
  obtain ⟨c, hc, hnone, hdue, -⟩ := fire_eq_ok hfire
  have hid : id ∈ l.planned.keys := Registry.isSome_get?_iff.1 (Option.isSome_of_eq_some hc)
  have hunfired : l.firedAt id = none := by rw [firedAt, hc, Option.bind_some, hnone]
  have hkeys : l'.planned.keys = l.planned.keys := keys_fire hfire
  have hsize : l'.plannedCount = l.plannedCount := by
    simpa [Registry.keys, plannedCount, Registry.size] using congrArg List.length hkeys
  refine ⟨hdue.trans h.same, ?_, ?_, ?_, ?_, ?_, ?_, ?_, ?_, ?_⟩
  · rw [nextNumber_fire hfire, h.next, hsize]
  · rw [map_fire hfire fun _ => rfl, h.numbers, hsize]
  · rw [Ledger.targets, map_fire hfire fun _ => rfl, hkeys]
    exact h.targets
  · rw [← List.forall_mem_map (P := (· = due)), map_fire hfire fun _ => rfl, List.forall_mem_map]
    exact h.dues
  · intro a ha
    exact (h.chosen a (hkeys ▸ ha)).append _
  · intro a ha
    rw [hkeys] at ha
    have hne : id ≠ a := fun heq => ha (heq ▸ hid)
    rw [Log.noted_concat, if_neg hne, List.append_nil, h.silent a ha]
  · intro a
    rw [Log.noted_concat, List.head?_append, ← h.fired, firedAt_fire hfire]
    by_cases ha : a = id
    · subst ha
      rw [if_pos rfl, if_pos rfl, hunfired]
      rfl
    · rw [if_neg ha, if_neg (Ne.symm ha)]
      exact Option.or_none.symm
  · intro a
    rw [Log.firsts_concat, h.once, firedAt_fire hfire]
    by_cases ha : a = id
    · subst ha
      rw [if_pos rfl, if_pos rfl, hunfired]
      rfl
    · rw [if_neg ha, if_neg (Ne.symm ha)]
      exact List.append_nil _
  · rw [firedCount_fire hfire, h.count]
    simp [Log.countFirsts]

/-! ## Any calls -/

theorem Follows.serve (h : Follows due log l) (r : Request) :
    Follows due (log ++ [⟨r, (l.serve r).1⟩]) (l.serve r).2 := by
  cases r with
  | plan selects candidates =>
    obtain ⟨new, hadds, -⟩ := exists_adds l selects 0 candidates
    exact h.plan hadds _
  | fire id now =>
    rcases l.fire_cases id now with ⟨-, hfire⟩ | ⟨hid, hfired, hfire⟩ | ⟨l', hfire⟩
    · simpa only [Ledger.serve, hfire] using h.unknown id now _
    · simpa only [Ledger.serve, hfire] using h.again hid hfired now
    · simpa only [Ledger.serve, hfire] using h.first hfire

/-- What took place is on record for good. -/
theorem mem_compromises_serve {c : Compromise} (hc : c ∈ l.compromises) (hfired : c.fired.isSome)
    (r : Request) : c ∈ (l.serve r).2.compromises := by
  cases r with
  | plan selects candidates =>
    obtain ⟨new, hadds, -⟩ := exists_adds l selects 0 candidates
    exact hadds.compromises ▸ List.mem_append_left _ hc
  | fire id now =>
    rcases l.fire_cases id now with ⟨-, hfire⟩ | ⟨-, -, hfire⟩ | ⟨l', hfire⟩
    · simpa only [Ledger.serve, hfire] using hc
    · simpa only [Ledger.serve, hfire] using hc
    · simp only [Ledger.serve, hfire]
      obtain ⟨c₀, hc₀, hnone, -, hput⟩ := fire_eq_ok hfire
      obtain ⟨a, ha⟩ := mem_compromises_iff.1 hc
      -- the compromise that takes place now is another one
      have hne : a ≠ id := by
        rintro rfl
        rw [Option.some.inj (hc₀.symm.trans ha)] at hnone
        rw [hnone] at hfired
        cases hfired
      exact mem_compromises_iff.2 ⟨a, by rw [Registry.get?_put? hput, if_neg hne, ha]⟩

/-- What holds of the record of a ledger that was made for the instant `due` and has come of the
calls in `log`. -/
structure Accurate (due : Instant) (log : Log) (l : Ledger) : Prop where
  /-- Compromises are numbered from 1 on, in order of planning. -/
  numbers : l.compromises.map Compromise.number = List.range' 1 l.plannedCount
  limit : l.plannedCount ≤ swarmLimit
  distinct : l.targets.Nodup
  chosen : ∀ id ∈ l.targets, log.Chose id
  dues : ∀ c ∈ l.compromises, c.due = due
  /-- A compromise took place when that was first noted, and this note alone was answered so. -/
  fired : ∀ c ∈ l.compromises,
    c.fired = (log.noted c.target).head? ∧ log.firsts c.target = c.fired.toList
  /-- A compromise that took place is on record for good. -/
  lasting : ∀ c ∈ l.compromises, c.fired.isSome → ∀ later, c ∈ (after serve l later).compromises
  firedCount : l.firedCount = log.countFirsts
  /-- Just the agents that are not in the ledger are unknown, and no note is taken of them. -/
  unknown : ∀ id now, (id ∉ l.targets ↔
    (l.serve (.fire id now)).1 = .fired (.error (.unknownAgent id))) ∧
      (id ∉ l.targets → (l.serve (.fire id now)).2 = l)
  /-- Planning adds to the record. It counts what it adds and leaves out no selected follower, or
  it breaks off because there is no room left. -/
  planned : ∀ selects candidates, ∃ new,
    (l.serve (.plan selects candidates)).2.compromises = l.compromises ++ new ∧
      ((l.serve (.plan selects candidates)).1 = .planned (.ok new.length) ∧
          (∀ id, (id, .follower) ∈ candidates → selects id →
            id ∈ (l.serve (.plan selects candidates)).2.targets) ∨
        (l.serve (.plan selects candidates)).1 = .planned (.error .swarmSizeExceeded) ∧
          (l.serve (.plan selects candidates)).2.plannedCount = swarmLimit)

theorem serve_fire_of_not_mem (hid : id ∉ l.planned.keys) (now : Instant) :
    l.serve (.fire id now) = (.fired (.error (.unknownAgent id)), l) := by
  rcases l.fire_cases id now with ⟨-, hfire⟩ | ⟨hmem, -⟩ | ⟨l', hfire⟩
  · simp only [Ledger.serve, hfire]
  · exact absurd hmem hid
  · obtain ⟨c, hc, -⟩ := fire_eq_ok hfire
    exact absurd (Registry.isSome_get?_iff.1 (Option.isSome_of_eq_some hc)) hid

theorem not_mem_of_unknown
    (h : (l.serve (.fire id now)).1 = .fired (.error (.unknownAgent id))) :
    id ∉ l.planned.keys := by
  rcases l.fire_cases id now with ⟨hid, -⟩ | ⟨-, -, hfire⟩ | ⟨l', hfire⟩
  · exact hid
  · rw [Ledger.serve, hfire] at h
    cases h
  · rw [Ledger.serve, hfire] at h
    cases h

theorem Follows.firedAt_target (h : Follows due log l) {c : Compromise}
    (hc : c ∈ l.compromises) : l.firedAt c.target = c.fired := by
  obtain ⟨id, hid⟩ := mem_compromises_iff.1 hc
  have htargets := h.targets
  rw [Ledger.targets, compromises, Registry.values, List.map_map, Registry.keys,
    List.map_inj_left] at htargets
  have htarget : c.target = id := htargets _ (Registry.get?_eq_some_iff.1 hid)
  rw [firedAt, htarget, hid, Option.bind_some]

/-- Planning counts what it adds and leaves nobody out, as long as there is room. -/
theorem Follows.planned (h : Follows due log l) (selects : Address → Bool)
    (candidates : List (Address × Role)) : ∃ new,
      (l.serve (.plan selects candidates)).2.compromises = l.compromises ++ new ∧
      ((l.serve (.plan selects candidates)).1 = .planned (.ok new.length) ∧
          (∀ id, (id, .follower) ∈ candidates → selects id →
            id ∈ (l.serve (.plan selects candidates)).2.targets) ∨
        (l.serve (.plan selects candidates)).1 = .planned (.error .swarmSizeExceeded) ∧
          (l.serve (.plan selects candidates)).2.plannedCount = swarmLimit) := by
  obtain ⟨new, hadds, hcount⟩ := exists_adds l selects 0 candidates
  rw [Nat.zero_add] at hcount
  refine ⟨new, hadds.compromises, ?_⟩
  rcases hcount with hcount | ⟨hcount, hfull⟩
  · refine .inl ⟨congrArg Answer.planned hcount, fun id hid hselects => ?_⟩
    rw [(h.serve (.plan selects candidates)).targets]
    exact mem_keys_of_planFrom hcount hid hselects
  · exact .inr ⟨congrArg Answer.planned hcount, hfull⟩

/-- The record is accurate after any calls, in any order. -/
theorem accurate_calls (due : Instant) (requests : List Request) :
    Accurate due (calls serve (empty due) requests) (after serve (empty due) requests) := by
  have h := calls_induction (Follows.empty due) (fun _ _ r h => h.serve r) requests
  refine ⟨h.numbers, Registry.bounded _, ?_, ?_, h.dues, fun c hc => ?_,
    fun c hc hfired later => ?_, h.count, fun id now => ?_, h.planned⟩
  · rw [h.targets]
    exact Registry.distinct _
  · rw [h.targets]
    exact h.chosen
  · rw [← h.fired, h.once, h.firedAt_target hc]
    exact ⟨rfl, rfl⟩
  · exact after_induction (P := fun l : Ledger => c ∈ l.compromises) hc
      (fun l r hc => mem_compromises_serve hc hfired r) later
  · rw [h.targets]
    refine ⟨⟨fun hid => ?_, not_mem_of_unknown⟩, fun hid => ?_⟩
    · rw [serve_fire_of_not_mem hid]
    · rw [serve_fire_of_not_mem hid]

/-- A note that comes too early counts for nothing, and so does the second one after it. -/
example : (after serve (empty ⟨15, by decide⟩) [.fire (.ofOctets 10 1 1 2) ⟨1, by decide⟩,
    .plan (fun _ => true) [(.ofOctets 10 1 1 1, .leader), (.ofOctets 10 1 1 2, .follower)],
    .fire (.ofOctets 10 1 1 2) ⟨2, by decide⟩,
    .fire (.ofOctets 10 1 1 2) ⟨3, by decide⟩]).compromises =
      [⟨1, .ofOctets 10 1 1 2, ⟨15, by decide⟩, some ⟨2, by decide⟩⟩] := by
  decide

end Ledger

end SwarmFlight
