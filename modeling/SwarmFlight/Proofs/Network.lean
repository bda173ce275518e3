import SwarmFlight.Network
import SwarmFlight.Proofs.Peers

/-!
# What a network does

An endpoint that is set up or given up changes nothing else (`bind_ok`, `isBound_close`). The
link lets through what it does not lose (`length_sortOut`), in the order in which it was sent
(`surviving_sublist`).
-/

namespace SwarmFlight

namespace Network

/-- An endpoint that is set up is the only new one. -/
theorem bind_eq_ok {n n' : Network} {a : Address} (h : n.bind a = .ok n') :
    ∃ bound, n' = { n with bound } ∧ ∀ b, n'.isBound b ↔ b = a ∨ n.isBound b := by
  unfold bind at h
  split at h
  · cases h
  · split at h
    · cases h
    · split at h
      · rename_i bound hput
        cases h
        exact ⟨bound, rfl, Registry.contains_put? hput⟩
      · cases h

theorem bind_ok {n n' : Network} {a : Address} (h : n.bind a = .ok n') :
    n'.link = n.link ∧ n'.outbox = n.outbox ∧ n'.refused = n.refused ∧
      ∀ b, n'.isBound b ↔ b = a ∨ n.isBound b := by
  obtain ⟨_, rfl, hbound⟩ := bind_eq_ok h
  exact ⟨rfl, rfl, rfl, hbound⟩

theorem isBound_close (n : Network) (a b : Address) :
    (n.close a).isBound b ↔ b ≠ a ∧ n.isBound b :=
  Registry.contains_erase _ _ _

/-- A network without endpoints has room for one wherever none is refused. -/
theorem exists_bind_of_empty {n : Network} {a : Address} (hb : n.bound = Registry.empty)
    (hr : n.refused.contains a ≠ true) : ∃ n', n.bind a = .ok n' := by
  have hbound : n.isBound a ≠ true := by
    rw [isBound, hb]
    exact Bool.false_ne_true
  unfold bind
  rw [if_neg hr, if_neg hbound]
  cases hput : n.bound.put? a () with
  | some bound => exact ⟨_, rfl⟩
  | none =>
    rw [hb, Registry.put?_eq_none_iff] at hput
    exact absurd hput.2 (by decide)

/-- What the link does not lose it lets through. -/
theorem length_sortOut (loss : Float) (g : Generator) (ds : List Datagram) :
    (sortOut loss g ds).surviving.length + (sortOut loss g ds).lost.length = ds.length := by
  induction ds generalizing g with
  | nil => rfl
  | cons d rest ih =>
    have ih := ih (g.chance loss).2
    simp only [sortOut]
    split <;> simp only [List.length_cons] <;> omega

/-- What gets through keeps its order. -/
theorem surviving_sublist (loss : Float) (g : Generator) (ds : List Datagram) :
    (sortOut loss g ds).surviving.Sublist ds := by
  induction ds generalizing g with
  | nil => exact .slnil
  | cons d rest ih =>
    have ih := ih (g.chance loss).2
    simp only [sortOut]
    split
    · exact ih.cons d
    · exact ih.cons_cons d

end Network

end SwarmFlight
