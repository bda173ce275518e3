import Mathlib.Data.Prod.Lex
import SwarmFlight.EventQueue
import SwarmFlight.Proofs.Number.Clock

/-!
# What comes first in a heap

A heap is `Ordered` if every element comes before those below it. Merging keeps that
(`ordered_merge`), so the root of an ordered heap comes before all of it (`top_before`), and
`dropWhile` takes away dead elements only (`filter_dropWhile`) until a live one is on top
(`not_dead_of_dropWhile`).

Entries of a queue come in order of their keys : due time, rank, number
(`Entry.before_iff`).
-/

namespace SwarmFlight

namespace Heap

variable {α : Type} {le : α → α → Bool}

/-- Every element comes before those below it. -/
def Ordered (le : α → α → Bool) : Heap α → Prop
  | empty => True
  | node _ x l r => (∀ y ∈ l.toList ++ r.toList, le x y) ∧ Ordered le l ∧ Ordered le r

theorem mem_toList_merge {a b : Heap α} {y : α} :
    y ∈ (merge le a b).toList ↔ y ∈ a.toList ∨ y ∈ b.toList := by
  rw [(toList_merge le a b).mem_iff, List.mem_append]

theorem ordered_joined {x : α} {a b : Heap α} (hx : ∀ y ∈ a.toList ++ b.toList, le x y)
    (ha : a.Ordered le) (hb : b.Ordered le) : (joined x a b).Ordered le := by
  unfold joined
  split
  · exact ⟨hx, ha, hb⟩
  · exact ⟨fun y hy => hx y (List.perm_append_comm.mem_iff.1 hy), hb, ha⟩

/-- Two ordered heaps merge into an ordered one. -/
theorem ordered_merge (total : ∀ a b, le a b ∨ le b a)
    (trans : ∀ {a b c}, le a b → le b c → le a c) {a b : Heap α} (ha : a.Ordered le)
    (hb : b.Ordered le) : (merge le a b).Ordered le := by
  fun_induction merge le a b with
  | case1 b => exact hb
  | case2 a => exact ha
  | case3 n x l r m y l' r' hxy ih =>
    obtain ⟨hx, hl, hr⟩ := ha
    refine ordered_joined (fun z hz => ?_) hl (ih hr hb)
    rw [List.mem_append, mem_toList_merge] at hz
    rcases hz with hz | hz | hz
    · exact hx z (List.mem_append_left _ hz)
    · exact hx z (List.mem_append_right _ hz)
    · rcases List.mem_cons.1 hz with rfl | hz
      · exact hxy
      · exact trans hxy (hb.1 z hz)
  | case4 n x l r m y l' r' hxy ih =>
    obtain ⟨hy, hl, hr⟩ := hb
    have hyx : le y x := (total x y).resolve_left hxy
    refine ordered_joined (fun z hz => ?_) hl (ih ha hr)
    rw [List.mem_append, mem_toList_merge] at hz
    rcases hz with hz | hz | hz
    · exact hy z (List.mem_append_left _ hz)
    · rcases List.mem_cons.1 hz with rfl | hz
      · exact hyx
      · exact trans hyx (ha.1 z hz)
    · exact hy z (List.mem_append_right _ hz)

/-- The root of an ordered heap comes before everything in it. -/
theorem top_before (refl : ∀ a, le a a) {n : Nat} {x : α} {l r : Heap α}
    (h : (node n x l r).Ordered le) : ∀ y ∈ (node n x l r).toList, le x y := by
  intro y hy
  rcases List.mem_cons.1 hy with rfl | hy
  · exact refl _
  · exact h.1 y hy

/-! ## Dropping dead elements -/

section DropWhile

variable (dead : α → Bool) (h : Heap α)

theorem ordered_dropWhile (total : ∀ a b, le a b ∨ le b a)
    (trans : ∀ {a b c}, le a b → le b c → le a c) (ho : h.Ordered le) :
    (h.dropWhile le dead).Ordered le := by
  fun_induction dropWhile le dead h with
  | case1 => exact ho
  | case2 n x l r _ ih => exact ih (ordered_merge total trans ho.2.1 ho.2.2)
  | case3 n x l r _ => exact ho

theorem mem_of_mem_dropWhile {y : α} (hy : y ∈ (h.dropWhile le dead).toList) : y ∈ h.toList := by
  fun_induction dropWhile le dead h with
  | case1 => exact hy
  | case2 n x l r _ ih =>
    exact List.mem_cons_of_mem _ (List.mem_append.2 (mem_toList_merge.1 (ih hy)))
  | case3 n x l r _ => exact hy

/-- Only dead elements are dropped. -/
theorem filter_dropWhile :
    ((h.dropWhile le dead).toList.filter fun x => !dead x).Perm
      (h.toList.filter fun x => !dead x) := by
  fun_induction dropWhile le dead h with
  | case1 => exact .refl _
  | case2 n x l r hx ih =>
    refine ih.trans (((toList_merge le l r).filter _).trans ?_)
    rw [toList, List.filter_cons_of_neg (by simp [hx])]
  | case3 n x l r _ => exact .refl _

/-- What is on top in the end is not dead. -/
theorem not_dead_of_dropWhile {n : Nat} {x : α} {l r : Heap α}
    (hx : h.dropWhile le dead = node n x l r) : dead x = false := by
  fun_induction dropWhile le dead h with
  | case1 => cases hx
  | case2 _ _ _ _ _ ih => exact ih hx
  | case3 _ _ _ _ hd =>
    cases hx
    simpa using hd

end DropWhile

end Heap

/-! ## The order of entries -/

namespace Entry

variable {ε : Type}

/-- Due time, rank and number, in order of weight. -/
def key (e : Entry ε) : Nat ×ₗ Nat ×ₗ Nat := toLex (e.due.nanos, toLex (e.rank, e.id))

theorem key_le_iff {a b : Entry ε} : a.key ≤ b.key ↔ a.due < b.due ∨
    a.due = b.due ∧ (a.rank < b.rank ∨ a.rank = b.rank ∧ a.id ≤ b.id) := by
  simp only [key, Prod.Lex.toLex_le_toLex, Duration.lt_def, Duration.nanos_inj]

/-- Entries take place in order of their keys. -/
theorem before_iff {a b : Entry ε} : a.before b ↔ a.key ≤ b.key := by
  rw [key_le_iff]
  simp [before]

theorem before_total (a b : Entry ε) : a.before b ∨ b.before a := by
  simpa only [before_iff] using le_total a.key b.key

theorem before_trans {a b c : Entry ε} (hab : a.before b) (hbc : b.before c) : a.before c := by
  rw [before_iff] at *
  exact hab.trans hbc

theorem before_refl (a : Entry ε) : a.before a := before_iff.2 le_rfl

theorem due_le_of_before {a b : Entry ε} (h : a.before b) : a.due ≤ b.due := by
  rcases key_le_iff.1 (before_iff.1 h) with h | ⟨h, -⟩
  · exact Nat.le_of_lt h
  · exact Nat.le_of_eq (congrArg _ h)

/-- No two entries of different numbers have the same place in the order. -/
theorem id_eq_of_key_eq {a b : Entry ε} (h : a.key = b.key) : a.id = b.id := by
  simp only [key, EmbeddingLike.apply_eq_iff_eq, Prod.mk.injEq] at h
  exact h.2.2

theorem id_eq_of_before {a b : Entry ε} (hab : a.before b) (hba : b.before a) : a.id = b.id :=
  id_eq_of_key_eq (le_antisymm (before_iff.1 hab) (before_iff.1 hba))

end Entry

end SwarmFlight
