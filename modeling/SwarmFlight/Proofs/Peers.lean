import Mathlib.Algebra.GroupWithZero.Nat
import Mathlib.Data.Finset.Card
import Mathlib.Data.List.Nodup
import Mathlib.Data.List.Perm.Subperm
import SwarmFlight.PeerTable

/-!
# What is known of each peer after a write

A write of a registry changes the value of one agent (`Registry.get?_put?`), and it succeeds
as long as all agents come from a swarm that a registry has room for
(`Registry.exists_put?`). A tally that counts one more for a peer has grown by one there and
in total (`Tally.get_increment`, `Tally.total_increment`). `Tally.incrementAll` counts one
more for each of some peers. It succeeds exactly if a tally has room for these peers and
those counted before (`Tally.exists_incrementAll_iff`), and breaks off at the first peer that
there is no room for otherwise (`Tally.exists_of_incrementAll_error`).
-/

namespace SwarmFlight

namespace Registry

variable {α : Type} {r r' : Registry α} {a b : Address} {v : α}

/-- A write keeps everyone's place, and puts whoever is new at the end. -/
theorem keys_put? (h : r.put? a v = some r') :
    r'.keys = if a ∈ r.keys then r.keys else r.keys ++ [a] := by
  by_cases ha : a ∈ r.keys
  · have he := put?_of_mem v ha
    rw [h] at he
    rw [if_pos ha, keys, Option.some.inj he, keys_overwrite]
    rfl
  · have he := put?_of_not_mem v ha
    rw [h] at he
    split at he
    · rw [if_neg ha, keys, Option.some.inj he, List.map_append]
      rfl
    · cases he

theorem mem_keys_put? (h : r.put? a v = some r') : b ∈ r'.keys ↔ b = a ∨ b ∈ r.keys := by
  rw [keys_put? h]
  split
  · rename_i ha
    exact ⟨.inr, fun hb => hb.elim (fun hba => hba ▸ ha) id⟩
  · rw [List.mem_append, List.mem_singleton, or_comm]

theorem contains_put? (h : r.put? a v = some r') (b : Address) :
    r'.contains b ↔ b = a ∨ r.contains b := by
  simpa [contains] using mem_keys_put? h

theorem contains_erase (r : Registry α) (a b : Address) :
    (r.erase a).contains b ↔ b ≠ a ∧ r.contains b := by
  have hkeys : b ∈ (r.erase a).keys ↔ b ≠ a ∧ b ∈ r.keys := by
    simp only [keys, erase, List.mem_map, List.mem_filter, decide_eq_true_eq]
    constructor
    · rintro ⟨e, ⟨he, hne⟩, rfl⟩
      exact ⟨hne, e, he, rfl⟩
    · rintro ⟨hne, e, he, rfl⟩
      exact ⟨e, ⟨he, hne⟩, rfl⟩
  simpa [contains] using hkeys

theorem isSome_get?_iff : (r.get? a).isSome ↔ a ∈ r.keys := by
  simp [get?, keys]

theorem find?_eq_some_iff {l : List (Address × α)} (hl : (l.map Prod.fst).Nodup) :
    (l.find? (·.1 = a)).map Prod.snd = some v ↔ (a, v) ∈ l := by
  induction l with
  | nil => simp
  | cons e rest ih =>
    obtain ⟨hnew, hrest⟩ := List.nodup_cons.1 hl
    by_cases he : e.1 = a
    · have hrest : (a, v) ∉ rest := fun hv => hnew (he ▸ List.mem_map_of_mem hv)
      simp [he, hrest, Prod.ext_iff, eq_comm]
    · have hne : (a, v) ≠ e := fun heq => he (heq ▸ rfl)
      simpa [he, hne] using ih hrest

/-- The value of an agent is the one that is entered for it. -/
theorem get?_eq_some_iff : r.get? a = some v ↔ (a, v) ∈ r.entries :=
  find?_eq_some_iff r.distinct

theorem find?_overwrite (a b : Address) (v : α) {l : List (Address × α)}
    (ha : a ∈ l.map Prod.fst) : ((overwrite a v l).find? (·.1 = b)).map Prod.snd =
      if b = a then some v else (l.find? (·.1 = b)).map Prod.snd := by
  induction l with
  | nil => exact absurd ha List.not_mem_nil
  | cons e rest ih =>
    by_cases he : e.1 = a
    · by_cases hb : b = a
      · simp [overwrite, he, hb]
      · simp [overwrite, he, hb, Ne.symm hb]
    · have ha := (List.mem_cons.1 ha).resolve_left (Ne.symm he)
      by_cases hb : e.1 = b
      · have hba : b ≠ a := hb ▸ he
        simp [overwrite, hb, hba]
      · simpa [overwrite, he, hb] using ih ha

theorem map_overwrite {β : Type} {f : Address × α → β} {l : List (Address × α)}
    (hf : ∀ e ∈ l, e.1 = a → f (a, v) = f e) : (overwrite a v l).map f = l.map f := by
  induction l with
  | nil => rfl
  | cons e rest ih =>
    obtain ⟨he, hrest⟩ := List.forall_mem_cons.1 hf
    by_cases ha : e.1 = a
    · simp [overwrite, ha, he ha]
    · simp [overwrite, ha, ih hrest]

/-- A write changes the value of one agent. -/
theorem get?_put? (h : r.put? a v = some r') (b : Address) :
    r'.get? b = if b = a then some v else r.get? b := by
  by_cases ha : a ∈ r.keys
  · have he := put?_of_mem v ha
    rw [h] at he
    rw [get?, Option.some.inj he, find?_overwrite a b v ha]
    rfl
  · have he := put?_of_not_mem v ha
    rw [h] at he
    split at he
    · have hnone : r.get? a = none := by
        rwa [← Option.not_isSome_iff_eq_none, isSome_get?_iff]
      rw [get?, Option.some.inj he, List.find?_append]
      by_cases hb : b = a
      · subst hb
        rw [get?, Option.map_eq_none_iff] at hnone
        simp [hnone]
      · simp [hb, Ne.symm hb, get?]
    · cases he

/-- There is room for every agent of a swarm as long as no others are entered. -/
theorem exists_put? {swarm : List Address} (hsize : swarm.length ≤ swarmLimit)
    (hkeys : ∀ b ∈ r.keys, b ∈ swarm) (ha : a ∈ swarm) (v : α) : ∃ r', r.put? a v = some r' := by
  refine Option.ne_none_iff_exists'.1 fun hnone => ?_
  obtain ⟨hnew, hfull⟩ := put?_eq_none_iff.1 hnone
  have hsub : (a :: r.keys) ⊆ swarm := List.cons_subset.2 ⟨ha, hkeys⟩
  have hle := ((List.nodup_cons.2 ⟨hnew, r.distinct⟩).subperm hsub).length_le
  rw [List.length_cons, keys, List.length_map] at hle
  exact absurd hfull (Nat.ne_of_lt (Nat.lt_of_lt_of_le hle hsize))

end Registry

namespace Tally

variable {t t' : Tally} {a : Address}

/-! ## Counting one -/

theorem increment_eq_ok (h : t.increment a = .ok t') :
    t.counts.put? a (t.get a + 1) = some t'.counts := by
  unfold increment at h
  split at h
  · rename_i counts hput
    cases h
    exact hput
  · cases h

theorem get_increment (h : t.increment a = .ok t') (b : Address) :
    t'.get b = t.get b + if b = a then 1 else 0 := by
  rw [get, Registry.get?_put? (increment_eq_ok h)]
  split
  · rename_i hb
    rw [hb]
    rfl
  · rfl

theorem eq_of_increment_error {f : Failure} (h : t.increment a = .error f) :
    f = .swarmSizeExceeded := by
  unfold increment at h
  split at h <;> cases h
  rfl

theorem keys_increment (h : t.increment a = .ok t') {b : Address} :
    b ∈ t'.counts.keys ↔ b = a ∨ b ∈ t.counts.keys :=
  Registry.mem_keys_put? (increment_eq_ok h)

theorem total_eq (t : Tally) : t.total = (t.counts.entries.map Prod.snd).sum :=
  List.sum_eq_foldl.symm

theorem sum_overwrite (a : Address) (n : Nat) {l : List (Address × Nat)}
    (ha : a ∈ l.map Prod.fst) : ((Registry.overwrite a n l).map Prod.snd).sum +
      ((l.find? (·.1 = a)).map Prod.snd).getD 0 = (l.map Prod.snd).sum + n := by
  induction l with
  | nil => exact absurd ha List.not_mem_nil
  | cons e rest ih =>
    by_cases he : e.1 = a
    · simp only [Registry.overwrite, he, if_true, List.map_cons, List.sum_cons, List.find?_cons,
        decide_true, Option.map_some, Option.getD_some]
      omega
    · have ih := ih ((List.mem_cons.1 ha).resolve_left (Ne.symm he))
      simp only [Registry.overwrite, he, if_false, List.map_cons, List.sum_cons, List.find?_cons,
        decide_false]
      omega

theorem total_increment (h : t.increment a = .ok t') : t'.total = t.total + 1 := by
  have hput := increment_eq_ok h
  rw [total_eq, total_eq]
  by_cases ha : a ∈ t.counts.keys
  · have he := Registry.put?_of_mem (t.get a + 1) ha
    rw [hput] at he
    have hsum := sum_overwrite a (t.get a + 1) ha
    rw [Option.some.inj he]
    have hget : ((t.counts.entries.find? (·.1 = a)).map Prod.snd).getD 0 = t.get a := rfl
    omega
  · have he := Registry.put?_of_not_mem (t.get a + 1) ha
    rw [hput] at he
    split at he
    · have hnone : t.counts.get? a = none := by
        rwa [← Option.not_isSome_iff_eq_none, Registry.isSome_get?_iff]
      rw [Option.some.inj he]
      simp [get, hnone]
    · cases he

theorem exists_increment {swarm : List Address} (hsize : swarm.length ≤ swarmLimit)
    (hkeys : ∀ b ∈ t.counts.keys, b ∈ swarm) (ha : a ∈ swarm) : ∃ t', t.increment a = .ok t' := by
  obtain ⟨counts, hput⟩ := Registry.exists_put? hsize hkeys ha (t.get a + 1)
  exact ⟨⟨counts⟩, by simp only [increment, hput]⟩

/-! ## Counting some -/

/-- Count one more for each of some peers. -/
def incrementAll (t : Tally) (peers : List Address) : Except Failure Tally :=
  peers.foldlM increment t

theorem incrementAll_cons {peer : Address} {peers : List Address}
    (h : t.incrementAll (peer :: peers) = .ok t') :
    ∃ t₁, t.increment peer = .ok t₁ ∧ t₁.incrementAll peers = .ok t' := by
  rw [incrementAll, List.foldlM_cons] at h
  cases ht : t.increment peer with
  | error f =>
    rw [ht] at h
    cases h
  | ok t₁ =>
    rw [ht] at h
    exact ⟨t₁, rfl, h⟩

theorem get_incrementAll {peers : List Address} (h : t.incrementAll peers = .ok t')
    (b : Address) : t'.get b = t.get b + peers.count b := by
  induction peers generalizing t with
  | nil =>
    cases h
    rfl
  | cons peer peers ih =>
    obtain ⟨t₁, h₁, h⟩ := incrementAll_cons h
    rw [ih h, get_increment h₁, List.count_cons]
    by_cases hb : b = peer
    · simp [hb, Nat.add_assoc, Nat.add_comm 1]
    · simp [hb, Ne.symm hb]

theorem total_incrementAll {peers : List Address} (h : t.incrementAll peers = .ok t') :
    t'.total = t.total + peers.length := by
  induction peers generalizing t with
  | nil =>
    cases h
    rfl
  | cons peer peers ih =>
    obtain ⟨t₁, h₁, h⟩ := incrementAll_cons h
    rw [ih h, total_increment h₁, List.length_cons]
    omega

theorem keys_incrementAll {peers : List Address} (h : t.incrementAll peers = .ok t')
    {b : Address} : b ∈ t'.counts.keys ↔ b ∈ peers ∨ b ∈ t.counts.keys := by
  induction peers generalizing t with
  | nil =>
    cases h
    simp
  | cons peer peers ih =>
    obtain ⟨t₁, h₁, h⟩ := incrementAll_cons h
    rw [ih h, keys_increment h₁, List.mem_cons]
    tauto

theorem exists_incrementAll {swarm peers : List Address} (hsize : swarm.length ≤ swarmLimit)
    (hkeys : ∀ b ∈ t.counts.keys, b ∈ swarm) (hpeers : ∀ b ∈ peers, b ∈ swarm) :
    ∃ t', t.incrementAll peers = .ok t' := by
  induction peers generalizing t with
  | nil => exact ⟨t, rfl⟩
  | cons peer peers ih =>
    obtain ⟨hpeer, hpeers⟩ := List.forall_mem_cons.1 hpeers
    obtain ⟨t₁, h₁⟩ := exists_increment hsize hkeys hpeer
    have hkeys₁ : ∀ b ∈ t₁.counts.keys, b ∈ swarm := fun b hb => by
      rcases (keys_increment h₁).1 hb with rfl | hb
      · exact hpeer
      · exact hkeys b hb
    obtain ⟨t', h'⟩ := ih hkeys₁ hpeers
    refine ⟨t', ?_⟩
    rw [incrementAll, List.foldlM_cons, h₁]
    exact h'

/-- There is room for some peers exactly if there are not too many of them, together with those that
were counted before. -/
theorem exists_incrementAll_iff {peers : List Address} :
    (∃ t', t.incrementAll peers = .ok t') ↔
      (t.counts.keys ++ peers).toFinset.card ≤ swarmLimit := by
  constructor
  · rintro ⟨t', h⟩
    have hsub : (t.counts.keys ++ peers).toFinset ⊆ t'.counts.keys.toFinset := fun b hb => by
      simpa [keys_incrementAll h, or_comm] using hb
    have hbound : t'.counts.keys.length ≤ swarmLimit := by
      rw [Registry.keys, List.length_map]
      exact t'.counts.bounded
    exact (Finset.card_le_card hsub).trans ((List.toFinset_card_le _).trans hbound)
  · intro hroom
    rw [List.card_toFinset] at hroom
    exact exists_incrementAll hroom (fun b hb => by simp [hb]) (fun b hb => by simp [hb])

/-- Counting breaks off at the first peer that there is no room for. -/
theorem exists_of_incrementAll_error {peers : List Address} {f : Failure}
    (h : t.incrementAll peers = .error f) : ∃ counted peer rest t',
      peers = counted ++ peer :: rest ∧ t.incrementAll counted = .ok t' ∧
      t'.increment peer = .error f := by
  induction peers generalizing t with
  | nil => cases h
  | cons peer peers ih =>
    rw [incrementAll, List.foldlM_cons] at h
    cases h₁ : t.increment peer with
    | error g =>
      rw [h₁] at h
      cases h
      exact ⟨[], peer, peers, t, rfl, rfl, h₁⟩
    | ok t₁ =>
      rw [h₁] at h
      obtain ⟨counted, peer', rest, t', rfl, hcounted, hpeer⟩ := ih h
      refine ⟨peer :: counted, peer', rest, t', rfl, ?_, hpeer⟩
      rw [incrementAll, List.foldlM_cons, h₁]
      exact hcounted

end Tally

namespace PeerTable

variable {t t' : PeerTable} {a : Address} {beacon : Beacon}

theorem update_eq_ok (ha : a ≠ t.owner) (h : t.update a beacon = .ok t') :
    t'.owner = t.owner ∧ t.beacons.put? a beacon = some t'.beacons := by
  unfold update at h
  rw [if_neg ha] at h
  split at h
  · rename_i beacons hput
    cases h
    exact ⟨rfl, hput⟩
  · cases h

theorem get?_update (ha : a ≠ t.owner) (h : t.update a beacon = .ok t') (b : Address) :
    t'.get? b = if b = a then some beacon else t.get? b :=
  Registry.get?_put? (update_eq_ok ha h).2 b

theorem exists_update {swarm : List Address} (hsize : swarm.length ≤ swarmLimit)
    (hkeys : ∀ b ∈ t.beacons.keys, b ∈ swarm) (ha : a ∈ swarm) (beacon : Beacon) :
    ∃ t', t.update a beacon = .ok t' := by
  unfold update
  split
  · exact ⟨t, rfl⟩
  · obtain ⟨beacons, hput⟩ := Registry.exists_put? hsize hkeys ha beacon
    rw [hput]
    exact ⟨_, rfl⟩

theorem contains_iff : t.contains a ↔ (t.get? a).isSome := by
  rw [get?, Registry.isSome_get?_iff]
  simp [contains, Registry.contains]

end PeerTable

end SwarmFlight
