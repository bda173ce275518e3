import SwarmFlight.Proofs.Queue.Awaited

/-!
# Queues that await the same

Two queues can have different events and different numbers and still agree on the events of
one kind : `Alike p q q'` pairs the entries of `q` that satisfy `p` with those of `q'`, so
that the two of a pair are due at the same time for the same event and the pairs come in the
same order of numbers on both sides.

Scheduling the same on both sides keeps that (`Alike.scheduleAll`), whatever other events one
side takes or schedules (`Alike.of_perm_left`). The first entries that satisfy `p` are a pair
(`Alike.takes`), because the order of entries depends on nothing else.
-/

namespace SwarmFlight

namespace EventQueue

variable {ε : Type} {q q' q₁ q₁' : EventQueue ε} {p : ε → Bool} {e e' : Entry ε}

/-- The entries of two queues that satisfy `p`, side by side. -/
structure Paired (p : ε → Bool) (q q' : EventQueue ε) (pairs : List (Entry ε × Entry ε)) :
    Prop where
  left : (pairs.map Prod.fst).Perm (q.awaited p)
  right : (pairs.map Prod.snd).Perm (q'.awaited p)
  same : ∀ m ∈ pairs, m.1.due = m.2.due ∧ m.1.rank = m.2.rank ∧ m.1.event = m.2.event
  order : ∀ m ∈ pairs, ∀ n ∈ pairs, m.1.id ≤ n.1.id ↔ m.2.id ≤ n.2.id

/-- Two queues that await the same events of a kind at the same times, in the same order. -/
def Alike (p : ε → Bool) (q q' : EventQueue ε) : Prop := ∃ pairs, Paired p q q' pairs

variable {pairs : List (Entry ε × Entry ε)}

theorem Paired.mem_left (h : Paired p q q' pairs) {m : Entry ε × Entry ε} (hm : m ∈ pairs) :
    m.1 ∈ q.awaited p :=
  h.left.mem_iff.1 (List.mem_map_of_mem hm)

theorem Paired.mem_right (h : Paired p q q' pairs) {m : Entry ε × Entry ε} (hm : m ∈ pairs) :
    m.2 ∈ q'.awaited p :=
  h.right.mem_iff.1 (List.mem_map_of_mem hm)

theorem Paired.exists_left (h : Paired p q q' pairs) (he : e ∈ q.awaited p) :
    ∃ m ∈ pairs, m.1 = e :=
  List.mem_map.1 (h.left.mem_iff.2 he)

theorem Paired.symm (h : Paired p q q' pairs) : Paired p q' q (pairs.map Prod.swap) where
  left := by
    rw [List.map_map]
    exact h.right
  right := by
    rw [List.map_map]
    exact h.left
  same := by
    simp only [List.forall_mem_map]
    exact fun m hm => ⟨(h.same m hm).1.symm, (h.same m hm).2.1.symm, (h.same m hm).2.2.symm⟩
  order := by
    simp only [List.forall_mem_map]
    exact fun m hm n hn => (h.order m hm n hn).symm

/-- Pairs come in the same order on both sides. -/
theorem Paired.key_le_iff (h : Paired p q q' pairs) {m n : Entry ε × Entry ε} (hm : m ∈ pairs)
    (hn : n ∈ pairs) : m.1.key ≤ n.1.key ↔ m.2.key ≤ n.2.key := by
  obtain ⟨hmdue, hmrank, -⟩ := h.same m hm
  obtain ⟨hndue, hnrank, -⟩ := h.same n hn
  rw [Entry.key_le_iff, Entry.key_le_iff, hmdue, hmrank, hndue, hnrank, h.order m hm n hn]

namespace Alike

theorem refl (p : ε → Bool) (q : EventQueue ε) : Alike p q q := by
  refine ⟨(q.awaited p).map fun e => (e, e), ?_, ?_, ?_, ?_⟩
  · rw [List.map_map]
    exact List.Perm.of_eq (List.map_id _)
  · rw [List.map_map]
    exact List.Perm.of_eq (List.map_id _)
  · simp
  · simp

theorem symm (h : Alike p q q') : Alike p q' q := by
  obtain ⟨pairs, hp⟩ := h
  exact ⟨_, hp.symm⟩

/-- Whatever else happens to a queue does not matter. -/
theorem of_perm_left (h : Alike p q q') (hperm : (q₁.awaited p).Perm (q.awaited p)) :
    Alike p q₁ q' := by
  obtain ⟨pairs, hp⟩ := h
  exact ⟨pairs, hp.left.trans hperm.symm, hp.right, hp.same, hp.order⟩

theorem of_perm_right (h : Alike p q q') (hperm : (q₁'.awaited p).Perm (q'.awaited p)) :
    Alike p q q₁' :=
  (h.symm.of_perm_left hperm).symm

/-- What one queue awaits the other one awaits as well. -/
theorem exists_of_mem (h : Alike p q q') (he : e ∈ q.awaited p) :
    ∃ e' ∈ q'.awaited p, e'.due = e.due ∧ e'.event = e.event := by
  obtain ⟨pairs, hp⟩ := h
  obtain ⟨m, hm, rfl⟩ := hp.exists_left he
  obtain ⟨hdue, -, hevent⟩ := hp.same m hm
  exact ⟨m.2, hp.mem_right hm, hdue.symm, hevent.symm⟩

/-- If both queues take an entry that satisfies `p`, it is for the same event at the same time. -/
theorem takes (h : Alike p q q') (hq : q'.WellFormed) (ht : q.Takes e q₁) (ht' : q'.Takes e' q₁')
    (he : p e.event) (he' : p e'.event) :
    e.due = e'.due ∧ e.event = e'.event ∧ Alike p q₁ q₁' := by
  obtain ⟨pairs, hp⟩ := h
  obtain ⟨m, hm, rfl⟩ := hp.exists_left (mem_awaited.2 ⟨ht.mem, he⟩)
  obtain ⟨n, hn, hn'⟩ := List.mem_map.1 (hp.right.mem_iff.2 (mem_awaited.2 ⟨ht'.mem, he'⟩))
  -- each of the two comes before the other, so they have one number
  have hfirst : m.1.key ≤ n.1.key :=
    Entry.before_iff.1 (ht.first _ (mem_awaited.1 (hp.mem_left hn)).1)
  have hfirst' : n.2.before m.2 := by
    rw [hn']
    exact ht'.first _ (mem_awaited.1 (hp.mem_right hm)).1
  have hid : m.2.id = n.2.id :=
    Entry.id_eq_of_before (Entry.before_iff.2 ((hp.key_le_iff hm hn).1 hfirst)) hfirst'
  have hsame : m.2 = e' := by
    rw [← hn']
    exact hq.eq_of_id_eq (mem_awaited.1 (hp.mem_right hm)).1
      (mem_awaited.1 (hp.mem_right hn)).1 hid
  obtain ⟨hdue, -, hevent⟩ := hp.same m hm
  refine ⟨hsame ▸ hdue, hsame ▸ hevent, ?_⟩
  classical
  have hperm := List.perm_cons_erase hm
  have hleft := (hperm.map Prod.fst).symm.trans (hp.left.trans (ht.awaited_of_pos he))
  have hright := (hperm.map Prod.snd).symm.trans (hp.right.trans (ht'.awaited_of_pos he'))
  rw [List.map_cons, hsame] at hright
  exact ⟨pairs.erase m, hleft.cons_inv, hright.cons_inv,
    fun x hx => hp.same x (List.mem_of_mem_erase hx),
    fun x hx y hy => hp.order x (List.mem_of_mem_erase hx) y (List.mem_of_mem_erase hy)⟩

section Schedule

variable [Ranked ε]

theorem scheduleAt (h : Alike p q q') (hq : q.WellFormed) (hq' : q'.WellFormed)
    (hclock : q.clock = q'.clock) (time : Instant) (event : ε) :
    Alike p (q.scheduleAt time event).2 (q'.scheduleAt time event).2 := by
  cases hp : p event with
  | false =>
    have hnone : ∀ x ∈ [(time, event)], p x.2 = false := by simpa using hp
    exact (h.of_perm_left (hq.awaited_scheduleAll_of_none hnone)).of_perm_right
      (hq'.awaited_scheduleAll_of_none hnone)
  | true =>
    obtain ⟨pairs, h⟩ := h
    have hold (m : Entry ε × Entry ε) (hm : m ∈ pairs) :
        m.1.id < q.nextId ∧ m.2.id < q'.nextId :=
      ⟨hq.fresh_of_pending (mem_live.1 (mem_awaited.1 (h.mem_left hm)).1).2,
        hq'.fresh_of_pending (mem_live.1 (mem_awaited.1 (h.mem_right hm)).1).2⟩
    refine ⟨(q.newEntry time event, q'.newEntry time event) :: pairs,
      (h.left.cons _).trans (hq.awaited_scheduleAt time hp).symm,
      (h.right.cons _).trans (hq'.awaited_scheduleAt time hp).symm, fun m hm => ?_,
      fun m hm n hn => ?_⟩
    · rcases List.mem_cons.1 hm with rfl | hm
      · exact ⟨congrArg time.max hclock, rfl, rfl⟩
      · exact h.same m hm
    · rcases List.mem_cons.1 hm with rfl | hm <;> rcases List.mem_cons.1 hn with rfl | hn
      · exact iff_of_true (Nat.le_refl _) (Nat.le_refl _)
      · exact iff_of_false (Nat.not_le.2 (hold n hn).1) (Nat.not_le.2 (hold n hn).2)
      · exact iff_of_true (Nat.le_of_lt (hold m hm).1) (Nat.le_of_lt (hold m hm).2)
      · exact h.order m hm n hn

/-- Scheduling the same events on both sides leaves queues that await the same. -/
theorem scheduleAll (h : Alike p q q') (hq : q.WellFormed) (hq' : q'.WellFormed)
    (hclock : q.clock = q'.clock) (events : List (Instant × ε)) :
    Alike p (q.scheduleAll events) (q'.scheduleAll events) := by
  induction events generalizing q q' with
  | nil => exact h
  | cons x rest ih =>
    exact ih (h.scheduleAt hq hq' hclock x.1 x.2) (hq.scheduleAt _ _) (hq'.scheduleAt _ _) hclock

end Schedule

end Alike

end EventQueue

end SwarmFlight
