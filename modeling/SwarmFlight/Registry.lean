import SwarmFlight.Address

/-!
# Registries

A registry holds a value for each of at most 128 agents, in the order in which they were
entered. Writing a value again keeps its place; when the registry is full only agents that
are already in it can be written. `put?_of_mem`, `put?_of_not_mem` and `put?_eq_none_iff` say
what a write does.
-/

namespace SwarmFlight

/-- How many agents a registry has room for, and how many a swarm may have. -/
def swarmLimit : Nat := 128

/-- Values by agent, in order of entry. -/
structure Registry (α : Type) where
  entries : List (Address × α)
  distinct : (entries.map Prod.fst).Nodup
  bounded : entries.length ≤ swarmLimit

namespace Registry

variable {α : Type}

/-- Nobody is entered. -/
def empty : Registry α := ⟨[], List.nodup_nil, Nat.zero_le _⟩

instance : Inhabited (Registry α) := ⟨empty⟩

/-- The agents entered. -/
def keys (r : Registry α) : List Address := r.entries.map Prod.fst

/-- The number of agents entered. -/
def size (r : Registry α) : Nat := r.entries.length

/-- Whether an agent is entered. -/
def contains (r : Registry α) (a : Address) : Bool := a ∈ r.keys

/-- The value of an agent. -/
def get? (r : Registry α) (a : Address) : Option α := (r.entries.find? (·.1 = a)).map Prod.snd

/-- The values, in order of entry. -/
def values (r : Registry α) : List α := r.entries.map Prod.snd

/-- Entries with the value of one agent replaced. -/
def overwrite (a : Address) (v : α) : List (Address × α) → List (Address × α)
  | [] => []
  | e :: rest => if e.1 = a then (a, v) :: rest else e :: overwrite a v rest

theorem keys_overwrite (a : Address) (v : α) (l : List (Address × α)) :
    (overwrite a v l).map Prod.fst = l.map Prod.fst := by
  induction l with
  | nil => rfl
  | cons e rest ih =>
    by_cases h : e.1 = a
    · simp [overwrite, h]
    · simp [overwrite, h, ih]

theorem length_overwrite (a : Address) (v : α) (l : List (Address × α)) :
    (overwrite a v l).length = l.length := by
  simpa using congrArg List.length (keys_overwrite a v l)

/-- Write the value of an agent, if it is entered or there is room for it. -/
def put? (r : Registry α) (a : Address) (v : α) : Option (Registry α) :=
  if entered : a ∈ r.keys then
    some ⟨overwrite a v r.entries, by rw [keys_overwrite]; exact r.distinct,
      by rw [length_overwrite]; exact r.bounded⟩
  else if room : r.entries.length < swarmLimit then
    some ⟨r.entries ++ [(a, v)], by
      rw [List.map_append, List.nodup_append]
      refine ⟨r.distinct, by simp, ?_⟩
      intro b hb c hc hbc
      simp only [List.map_cons, List.map_nil, List.mem_singleton] at hc
      exact entered (hc ▸ hbc ▸ hb), by
      rw [List.length_append]; exact room⟩
  else none

/-- Strike an agent off. -/
def erase (r : Registry α) (a : Address) : Registry α where
  entries := r.entries.filter (·.1 ≠ a)
  distinct := r.distinct.sublist (List.filter_sublist.map _)
  bounded := Nat.le_trans (List.length_filter_le _ _) r.bounded

/-! ## What a write does -/

theorem put?_of_mem {r : Registry α} {a : Address} (v : α) (h : a ∈ r.keys) :
    (r.put? a v).map entries = some (overwrite a v r.entries) := by
  simp [put?, h]

theorem put?_of_not_mem {r : Registry α} {a : Address} (v : α) (h : a ∉ r.keys) :
    (r.put? a v).map entries =
      if r.size < swarmLimit then some (r.entries ++ [(a, v)]) else none := by
  by_cases room : r.entries.length < swarmLimit <;> simp [put?, h, room, size]

/-- A write fails exactly when the agent is new and the registry is full. -/
theorem put?_eq_none_iff {r : Registry α} {a : Address} {v : α} :
    r.put? a v = none ↔ a ∉ r.keys ∧ r.size = swarmLimit := by
  have hb := r.bounded
  by_cases h : a ∈ r.keys
  · simp [put?, h]
  · by_cases room : r.entries.length < swarmLimit
    · have : r.size ≠ swarmLimit := Nat.ne_of_lt room
      simp [put?, h, room, this]
    · have : r.size = swarmLimit := by simp only [size]; omega
      simp [put?, h, room, this]

end Registry

end SwarmFlight
