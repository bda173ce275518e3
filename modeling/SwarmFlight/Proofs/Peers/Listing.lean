import SwarmFlight.Proofs.Dialogue
import SwarmFlight.Proofs.Peers

/-!
# What a table of peers lists

A table is given beacons of peers, in any order and any number of times. It lists the peers in
the order in which they were first taken down, with the last beacon of each (`Lists`), and
turns down only peers that are new when it is full. Each update keeps this (`Follows.serve`),
so it holds after any updates (`lists_calls`).
-/

namespace SwarmFlight

/-- Of a list that grows at the end, what is new goes to the end. -/
theorem eraseDups_concat {α : Type} [DecidableEq α] (l : List α) (a : α) :
    (l ++ [a]).eraseDups = if a ∈ l then l.eraseDups else l.eraseDups ++ [a] := by
  by_cases h : a ∈ l <;>
    simp [List.eraseDups_append, List.eraseDups_cons, List.removeAll, h]

namespace PeerTable

/-- Take down a beacon of a peer and tell whether that succeeded. -/
def serve (t : PeerTable) (r : Address × Beacon) : Except Failure Unit × PeerTable :=
  match t.update r.1 r.2 with
  | .ok t' => (.ok (), t')
  | .error f => (.error f, t)

/-- The updates of a table so far with their answers. -/
abbrev Log := List (Call (Address × Beacon) (Except Failure Unit))

/-- The beacons that were taken down with success for peers of `owner`, in order. -/
def Log.taken (owner : Address) (log : Log) : List (Address × Beacon) :=
  log.filterMap fun c =>
    match c.answer with
    | .ok () => if c.request.1 = owner then none else some c.request
    | .error _ => none

variable {t t' : PeerTable} {owner peer : Address} {beacon : Beacon} {log : Log}

/-- The table that has come of some updates. -/
structure Follows (owner : Address) (log : Log) (t : PeerTable) : Prop where
  same : t.owner = owner
  keys : t.beacons.keys = ((log.taken owner).map Prod.fst).eraseDups
  last : ∀ a, t.get? a = ((log.taken owner).filter (·.1 = a)).getLast?.map Prod.snd

theorem Follows.empty (owner : Address) : Follows owner [] (empty owner) :=
  ⟨rfl, rfl, fun _ => rfl⟩

/-- An update that is not for a peer, or does not succeed, is not taken down. -/
theorem Follows.ignore (h : Follows owner log t) {c : Call (Address × Beacon) (Except Failure Unit)}
    (hc : Log.taken owner [c] = []) : Follows owner (log ++ [c]) t := by
  have htaken : Log.taken owner (log ++ [c]) = log.taken owner := by
    rw [Log.taken, List.filterMap_append]
    exact (congrArg _ hc).trans (List.append_nil _)
  exact ⟨h.same, htaken ▸ h.keys, htaken ▸ h.last⟩

theorem Follows.update (h : Follows owner log t) (hpeer : peer ≠ owner)
    (hupdate : t.update peer beacon = .ok t') :
    Follows owner (log ++ [⟨(peer, beacon), .ok ()⟩]) t' := by
  have htaken : Log.taken owner (log ++ [⟨(peer, beacon), .ok ()⟩]) =
      log.taken owner ++ [(peer, beacon)] := by
    simp [Log.taken, hpeer]
  have hpeer' : peer ≠ t.owner := h.same ▸ hpeer
  obtain ⟨howner, hput⟩ := update_eq_ok hpeer' hupdate
  refine ⟨howner.trans h.same, ?_, fun a => ?_⟩
  · rw [Registry.keys_put? hput, h.keys, htaken, List.map_append, List.map_singleton,
      eraseDups_concat]
    simp only [List.mem_eraseDups]
  · rw [get?_update hpeer' hupdate, htaken, List.filter_append]
    by_cases ha : a = peer
    · simp [ha]
    · simp [ha, Ne.symm ha, h.last]

theorem Follows.serve (h : Follows owner log t) (r : Address × Beacon) :
    Follows owner (log ++ [⟨r, (t.serve r).1⟩]) (t.serve r).2 := by
  obtain ⟨peer, beacon⟩ := r
  unfold PeerTable.serve
  by_cases hpeer : peer = owner
  · have hown : t.update peer beacon = .ok t := if_pos (hpeer.trans h.same.symm)
    simp only [hown]
    exact h.ignore (by simp [Log.taken, hpeer])
  · cases hupdate : t.update peer beacon with
    | ok t' => exact h.update hpeer hupdate
    | error f => exact h.ignore rfl

/-- What holds of the listing of a table that belongs to `owner` and has come of the updates in
`log`. -/
structure Lists (owner : Address) (log : Log) (t : PeerTable) : Prop where
  /-- The peers stand in the order in which they were first taken down. -/
  order : t.snapshot.map Prod.fst = ((log.taken owner).map Prod.fst).eraseDups
  distinct : (t.snapshot.map Prod.fst).Nodup
  others : owner ∉ t.snapshot.map Prod.fst
  /-- Each peer stands with the beacon that was taken down last. -/
  last : ∀ e ∈ t.snapshot, ((log.taken owner).filter (·.1 = e.1)).getLast? = some e
  get? : ∀ peer beacon, t.get? peer = some beacon ↔ (peer, beacon) ∈ t.snapshot
  contains : ∀ peer, t.contains peer ↔ peer ∈ t.snapshot.map Prod.fst
  size : t.size = t.snapshot.length
  /-- Just the peers that are new are turned down, when the table is full. -/
  answer : ∀ peer beacon, (t.serve (peer, beacon)).1 =
    if peer ≠ owner ∧ ¬ t.contains peer ∧ t.size = swarmLimit then .error .swarmSizeExceeded
    else .ok ()
  /-- An update that is turned down changes nothing, and one that names the owner neither. -/
  same : ∀ peer beacon, peer = owner ∨ (t.serve (peer, beacon)).1 ≠ .ok () →
    (t.serve (peer, beacon)).2.snapshot = t.snapshot

theorem serve_owner (t : PeerTable) (beacon : Beacon) :
    t.serve (t.owner, beacon) = (.ok (), t) := by
  have hown : t.update t.owner beacon = .ok t := if_pos rfl
  simp only [serve, hown]

theorem serve_fst (hpeer : peer ≠ t.owner) (beacon : Beacon) : (t.serve (peer, beacon)).1 =
    if ¬ t.contains peer ∧ t.size = swarmLimit then .error .swarmSizeExceeded else .ok () := by
  have hfull : t.beacons.put? peer beacon = none ↔ ¬ t.contains peer ∧ t.size = swarmLimit := by
    simp [Registry.put?_eq_none_iff, PeerTable.contains, Registry.contains, size]
  unfold serve update
  rw [if_neg hpeer]
  cases hput : t.beacons.put? peer beacon with
  | none => exact (if_pos (hfull.1 hput)).symm
  | some beacons =>
    have hroom : ¬ (¬ t.contains peer ∧ t.size = swarmLimit) := fun hnone => by
      rw [← hfull, hput] at hnone
      cases hnone
    exact (if_neg hroom).symm

theorem serve_snd (h : (t.serve (peer, beacon)).1 ≠ .ok ()) :
    (t.serve (peer, beacon)).2 = t := by
  unfold serve at h ⊢
  split
  · rename_i hupdate
    exact absurd (by simp only [hupdate]) h
  · rfl

theorem not_mem_taken (owner : Address) (log : Log) : owner ∉ (log.taken owner).map Prod.fst := by
  intro hmem
  obtain ⟨r, hr, rfl⟩ := List.mem_map.1 hmem
  obtain ⟨c, -, hc⟩ := List.mem_filterMap.1 hr
  split at hc
  · split at hc
    · cases hc
    · rename_i hne
      exact hne (congrArg Prod.fst (Option.some.inj hc))
  · cases hc

/-- Whatever beacons a table is given, it lists the last one of each peer in the order in which
the peers were first taken down. -/
theorem lists_calls (owner : Address) (updates : List (Address × Beacon)) :
    Lists owner (calls serve (empty owner) updates) (after serve (empty owner) updates) := by
  have h := calls_induction (Follows.empty owner) (fun _ _ r h => h.serve r) updates
  generalize calls serve (empty owner) updates = log at h
  generalize after serve (empty owner) updates = t at h
  refine ⟨h.keys, t.beacons.distinct, ?_, fun e he => ?_, fun _ _ => Registry.get?_eq_some_iff,
    fun peer => ?_, rfl, fun peer beacon => ?_, fun peer beacon hor => ?_⟩
  · show owner ∉ t.beacons.keys
    rw [h.keys, List.mem_eraseDups]
    exact not_mem_taken owner log
  · have hlast := (h.last e.1).symm.trans (Registry.get?_eq_some_iff.2 he)
    obtain ⟨e', he', hsnd⟩ := Option.map_eq_some_iff.1 hlast
    have hfst : e'.1 = e.1 := by
      simpa using (List.mem_filter.1 (List.mem_of_getLast? he')).2
    rw [he', Prod.ext hfst hsnd]
  · exact decide_eq_true_iff
  · by_cases hpeer : peer = owner
    · rw [hpeer, ← h.same, serve_owner]
      exact (if_neg fun hnot => hnot.1 rfl).symm
    · rw [serve_fst (h.same.symm ▸ hpeer)]
      simp only [ne_eq, hpeer, not_false_eq_true, true_and]
  · rcases hor with rfl | hrefused
    · rw [← h.same, serve_owner]
    · rw [serve_snd hrefused]

end PeerTable

end SwarmFlight
