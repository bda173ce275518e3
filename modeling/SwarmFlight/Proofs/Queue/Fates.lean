import Mathlib.Algebra.GroupWithZero.Nat
import SwarmFlight.Proofs.Queue.Reference

/-!
# What becomes of an event

A `History` is what was asked of a queue, one `Exchange` for each request, and the `Deed` of an
exchange is what the request came to, as one can tell from the answer. From the deeds follows
what was issued, what was dispatched and which `Fate` befell a number.

`Changes` says what each deed does to a queue that is well formed (`WellFormed.changes`). A
fate befalls a number that is pending, and ends that (`Changes.of_fate?`); a number without
one is as pending as before (`Changes.of_no_fate`). By induction on the requests a number has
at most one fate, and none as long as it is pending (`WellFormed.fates_eq`), and of two events
that are due at the same time the first is never dispatched last
(`WellFormed.not_sublist_dispatched`). `orderly_of_empty` is what comes of it for a new queue.
-/

namespace SwarmFlight

/-- What a request comes to. -/
inductive Deed (ε : Type) where
  | issue (e : Entry ε)
  | dispatch (id : EventId) (event : ε)
  /-- An event was called off that was still to take place. -/
  | callOff (id : EventId)
  /-- There was nothing to take out, or it was due too late. -/
  | discard
  | stopAt (time : Instant)
  | nothing

/-- What becomes of an event that does not stay pending. -/
inductive Fate where
  | dispatched
  | calledOff
  | discarded
  deriving DecidableEq

/-- A request and its answer, with the queue before and after. -/
structure Exchange (ε : Type) where
  before : EventQueue ε
  request : Request ε
  answer : Answer ε
  after : EventQueue ε

variable {ε : Type}

namespace Deed

def issued? : Deed ε → Option (Entry ε)
  | issue e => some e
  | _ => none

def dispatched? : Deed ε → Option EventId
  | dispatch id _ => some id
  | _ => none

def stop? : Deed ε → Option Instant
  | stopAt time => some time
  | _ => none

def callsOff : Deed ε → Bool
  | callOff _ => true
  | _ => false

/-- How many events a deed discards from a queue. -/
def discarded (q : EventQueue ε) : Deed ε → Nat
  | discard => q.size
  | _ => 0

/-- What a deed makes of a number in a queue. -/
def fate? (q : EventQueue ε) (id : EventId) : Deed ε → Option Fate
  | dispatch k _ => if k = id then some .dispatched else none
  | callOff k => if k = id then some .calledOff else none
  | discard => if q.isPending id then some .discarded else none
  | _ => none

theorem of_dispatched?_eq_some {d : Deed ε} {id : EventId} (h : d.dispatched? = some id) :
    ∃ event, d = .dispatch id event := by
  cases d with
  | dispatch k event => exact ⟨event, congrArg (dispatch · event) (Option.some.inj h)⟩
  | _ => cases h

end Deed

/-- What an exchange comes to, told from the request and the answer. An event that is scheduled is
due at the time asked for, or at the time it was then if that is later. -/
def Exchange.deed [Ranked ε] (x : Exchange ε) : Deed ε :=
  match x.request, x.answer with
  | .scheduleAt time event, .scheduled id =>
    .issue ⟨time.max x.before.clock, Ranked.rank event, id, event⟩
  | .scheduleAfter delay event, .scheduled id =>
    match x.before.clock.add? delay with
    | some time => .issue ⟨time.max x.before.clock, Ranked.rank event, id, event⟩
    | none => .nothing
  | .cancel id, .flag true => .callOff id
  | .pop, .taken (some (id, event)) => .dispatch id event
  | .pop, .taken none => .discard
  | .stopAt time, _ => .stopAt time
  | _, _ => .nothing

/-- What was asked of a queue, in order. -/
abbrev History (ε : Type) := List (Exchange ε)

namespace History

variable [Ranked ε]

/-- The events that were scheduled. -/
def issued (log : History ε) : List (Entry ε) := log.filterMap fun x => x.deed.issued?

/-- The numbers of the events that were taken out. -/
def dispatched (log : History ε) : List EventId := log.filterMap fun x => x.deed.dispatched?

/-- The stop time that was set last. -/
def lastStop? (log : History ε) : Option Instant :=
  (log.filterMap fun x => x.deed.stop?).getLast?

/-- How many times an event was called off. -/
def calledOff (log : History ε) : Nat := log.countP fun x => x.deed.callsOff

/-- How many events were discarded. -/
def discarded (log : History ε) : Nat := (log.map fun x => x.deed.discarded x.before).sum

/-- All that befell a number. -/
def fates (log : History ε) (id : EventId) : List Fate :=
  log.filterMap fun x => x.deed.fate? x.before id

variable (x : Exchange ε) (log : History ε)

theorem issued_cons : issued (x :: log) = x.deed.issued?.toList ++ log.issued := by
  simp only [issued, List.filterMap_eq_flatMap_toList, List.flatMap_cons]

theorem dispatched_cons :
    dispatched (x :: log) = x.deed.dispatched?.toList ++ log.dispatched := by
  simp only [dispatched, List.filterMap_eq_flatMap_toList, List.flatMap_cons]

theorem fates_cons (id : EventId) :
    fates (x :: log) id = (x.deed.fate? x.before id).toList ++ log.fates id := by
  simp only [fates, List.filterMap_eq_flatMap_toList, List.flatMap_cons]

theorem lastStop?_cons : lastStop? (x :: log) = log.lastStop?.or x.deed.stop? := by
  have hlast : x.deed.stop?.toList.getLast? = x.deed.stop? := by cases x.deed.stop? <;> rfl
  rw [lastStop?, List.filterMap_eq_flatMap_toList, List.flatMap_cons, List.getLast?_append, hlast,
    ← List.filterMap_eq_flatMap_toList, lastStop?]

theorem calledOff_cons : calledOff (x :: log) = x.deed.callsOff.toNat + log.calledOff := by
  rw [calledOff, List.countP_cons, Nat.add_comm]
  cases x.deed.callsOff <;> rfl

theorem discarded_cons : discarded (x :: log) = x.deed.discarded x.before + log.discarded := by
  rw [discarded, List.map_cons, List.sum_cons, discarded]

theorem mem_fates_of_mem_dispatched {log : History ε} {id : EventId} (h : id ∈ log.dispatched) :
    .dispatched ∈ log.fates id := by
  obtain ⟨x, hx, hid⟩ := List.mem_filterMap.1 h
  obtain ⟨event, hdeed⟩ := Deed.of_dispatched?_eq_some hid
  exact List.mem_filterMap.2 ⟨x, hx, by rw [hdeed, Deed.fate?, if_pos rfl]⟩

end History

namespace EventQueue

variable {q q' : EventQueue ε}

/-! ## Single requests -/

/-- A queue with the same events to come as another, and the same clock and counters. -/
structure Keeps (q q' : EventQueue ε) : Prop where
  wellFormed : q'.WellFormed
  live : q.live.Perm q'.live
  clock : q'.clock = q.clock
  nextId : q'.nextId = q.nextId
  stopTime : q'.stopTime = q.stopTime
  dispatched : q'.dispatched = q.dispatched

theorem Keeps.refl (hq : q.WellFormed) : q.Keeps q := ⟨hq, .refl _, rfl, rfl, rfl, rfl⟩

theorem Keeps.settle (hq : q.WellFormed) : q.Keeps q.settle :=
  ⟨hq.settle, (live_settle q).symm, rfl, rfl, rfl, rfl⟩

theorem Keeps.cancel (hq : q.WellFormed) {id : EventId} (h : q.isPending id = false) :
    q.Keeps (q.cancel id).2 where
  wellFormed := hq.cancel id
  live := by
    rw [live_cancel, List.filter_eq_self.2]
    intro e he
    refine decide_eq_true fun heq => ?_
    rw [← heq, (mem_live.1 he).2] at h
    cases h
  clock := rfl
  nextId := rfl
  stopTime := rfl
  dispatched := rfl

theorem WellFormed.isPending_iff (hq : q.WellFormed) {id : EventId} :
    q.isPending id ↔ ∃ e ∈ q.live, e.id = id := by
  rw [← hq.mem_ids_iff, List.mem_map]

theorem isPending_congr (hq : q.WellFormed) (hq' : q'.WellFormed) (h : q.live.Perm q'.live)
    (id : EventId) : q'.isPending id = q.isPending id := by
  rw [Bool.eq_iff_iff, ← hq.mem_ids_iff, ← hq'.mem_ids_iff, (h.map Entry.id).mem_iff]

theorem Takes.isPending_iff {e : Entry ε} (hq : q.WellFormed) (h : q.Takes e q') {id : EventId} :
    q'.isPending id ↔ id ≠ e.id ∧ q.isPending id := by
  rw [← hq.mem_ids_iff, (h.live.map Entry.id).mem_iff, List.map_cons, List.mem_cons,
    ← h.wellFormed.mem_ids_iff]
  constructor
  · intro hid
    obtain ⟨x, hx, rfl⟩ := List.mem_map.1 hid
    exact ⟨h.id_ne hq hx, .inr hid⟩
  · rintro ⟨hne, hid⟩
    exact hid.resolve_left hne

theorem exists_stopTime_of_stopsBy {t : Instant} (h : q.stopsBy t) :
    ∃ stop, q.stopTime = some stop ∧ stop ≤ t := by
  cases hs : q.stopTime with
  | none => simp only [stopsBy, hs, Bool.false_eq_true] at h
  | some stop => exact ⟨stop, rfl, (stopsBy_iff hs).1 h⟩

theorem WellFormed.size_cancel (hq : q.WellFormed) {id : EventId} (h : q.isPending id) :
    q.size = (q.cancel id).2.size + 1 := by
  obtain ⟨e, he, -⟩ := hq.isPending_iff.1 h
  have hpos : 0 < q.size := hq.size_eq ▸ List.length_pos_of_mem he
  have herase : (q.cancel id).2.size = q.pending.size - 1 := Std.HashSet.size_erase.trans (if_pos h)
  rw [herase]
  exact (Nat.sub_add_cancel hpos).symm

theorem Drained.isPending_eq (h : q.Drained q') (id : EventId) : q'.isPending id = false := by
  rw [Bool.eq_false_iff, ne_eq, h.wellFormed.isPending_iff, h.live]
  simp

section Changes

variable [Ranked ε]

/-- What a deed does to a queue. -/
inductive Changes (q : EventQueue ε) : Deed ε → EventQueue ε → Prop
  | issue (time : Instant) (event : ε) :
    Changes q (.issue (q.newEntry time event)) (q.scheduleAt time event).2
  | dispatch {e : Entry ε} {q' : EventQueue ε} (takes : q.Takes e q')
    (early : q.stopsBy e.due = false) : Changes q (.dispatch e.id e.event) q'
  | callOff {id : EventId} (pending : q.isPending id) : Changes q (.callOff id) (q.cancel id).2
  | discard {q' : EventQueue ε} (drained : q.Drained q') (late : ∀ e ∈ q.live, q.stopsBy e.due) :
    Changes q .discard q'
  | stopAt (time : Instant) : Changes q (.stopAt time) (q.stopAt time)
  | nothing {q' : EventQueue ε} (keeps : q.Keeps q') : Changes q .nothing q'

/-- A request, as a queue answers it. -/
def exchange (q : EventQueue ε) (r : Request ε) : Exchange ε :=
  ⟨q, r, (q.serve r).1, (q.serve r).2⟩

/-- Every request changes a queue as its deed says. -/
theorem WellFormed.changes (hq : q.WellFormed) (r : Request ε) :
    q.Changes (q.exchange r).deed (q.serve r).2 := by
  cases r with
  | scheduleAt time event => exact .issue time event
  | scheduleAfter delay event =>
    cases htime : q.clock.add? delay with
    | none =>
      simp only [exchange, Exchange.deed, serve, scheduleAfter?, htime, Option.map_none]
      exact .nothing (.refl hq)
    | some time =>
      simp only [exchange, Exchange.deed, serve, scheduleAfter?, htime, Option.map_some]
      exact .issue time event
  | cancel id =>
    have hanswer : (q.serve (.cancel id)).1 = .flag (q.isPending id) := rfl
    rw [exchange, hanswer]
    cases hp : q.isPending id with
    | false => exact .nothing (.cancel hq hp)
    | true => exact .callOff hp
  | isPending id => exact .nothing (.refl hq)
  | pop =>
    rcases hq.pop_cases with ⟨q', hpop, drained, hlate⟩ | ⟨e, q', hpop, takes, early⟩
    · simp only [exchange, Exchange.deed, serve, hpop, Option.map_none]
      refine .discard drained fun x hx => ?_
      rcases hlate with hnil | ⟨e, -, hfirst, hstop⟩
      · rw [hnil] at hx
        cases hx
      · exact stopsBy_mono (Entry.due_le_of_before (hfirst x hx)) hstop
    · simp only [exchange, Exchange.deed, serve, hpop, Option.map_some]
      exact .dispatch takes early
  | peek => exact .nothing (.settle hq)
  | size => exact .nothing (.refl hq)
  | stopAt time => exact .stopAt time

namespace Changes

variable {d : Deed ε} {id : EventId}

theorem wellFormed (hq : q.WellFormed) (h : q.Changes d q') : q'.WellFormed := by
  cases h with
  | issue time event => exact hq.scheduleAt time event
  | dispatch takes => exact takes.wellFormed
  | callOff => exact hq.cancel _
  | discard drained => exact drained.wellFormed
  | stopAt time => exact hq.stopAt time
  | nothing keeps => exact keeps.wellFormed

/-- No deed turns the clock back. -/
theorem clock_le (hq : q.WellFormed) (h : q.Changes d q') : q.clock ≤ q'.clock := by
  cases h with
  | dispatch takes =>
    rw [takes.clock]
    exact hq.ahead _ (mem_live.1 takes.mem).1
  | discard drained => exact Nat.le_of_eq (congrArg _ drained.clock.symm)
  | nothing keeps => exact Nat.le_of_eq (congrArg _ keeps.clock.symm)
  | _ => exact Nat.le_refl _

/-- An event that is issued gets the next number. -/
theorem issued_cases (h : q.Changes d q') :
    d.issued? = none ∧ q'.nextId = q.nextId ∨
      ∃ e, d.issued? = some e ∧ e.id = q.nextId ∧ q'.nextId = q.nextId + 1 := by
  cases h with
  | issue time event => exact .inr ⟨_, rfl, rfl, rfl⟩
  | dispatch takes => exact .inl ⟨rfl, takes.nextId⟩
  | discard drained => exact .inl ⟨rfl, drained.nextId⟩
  | nothing keeps => exact .inl ⟨rfl, keeps.nextId⟩
  | _ => exact .inl ⟨rfl, rfl⟩

/-- What is pending is what was, and what has been issued. -/
theorem mem_live (hq : q.WellFormed) (h : q.Changes d q') {e : Entry ε} (he : e ∈ q'.live) :
    e ∈ q.live ∨ d.issued? = some e := by
  cases h with
  | issue time event =>
    rcases List.mem_cons.1 ((hq.live_scheduleAt time event).mem_iff.1 he) with rfl | he
    · exact .inr rfl
    · exact .inl he
  | dispatch takes => exact .inl (takes.live.mem_iff.2 (List.mem_cons_of_mem _ he))
  | callOff =>
    rw [live_cancel] at he
    exact .inl (List.mem_of_mem_filter he)
  | discard drained =>
    rw [drained.live] at he
    cases he
  | stopAt => exact .inl he
  | nothing keeps => exact .inl (keeps.live.mem_iff.2 he)

/-- An entry stays as long as its number is pending. -/
theorem mem_live_of_isPending (hq : q.WellFormed) (h : q.Changes d q') {e : Entry ε}
    (he : e ∈ q.live) (hp : q'.isPending e.id = true) : e ∈ q'.live := by
  obtain ⟨x, hx, hid⟩ := (h.wellFormed hq).isPending_iff.1 hp
  rcases h.mem_live hq hx with hold | hnew
  · rwa [hq.eq_of_id_eq he hold hid.symm]
  · rcases h.issued_cases with ⟨hnone, -⟩ | ⟨y, hsome, hnext, -⟩
    · exact absurd (hnew.symm.trans hnone) (Option.some_ne_none _)
    · -- a number that has just been issued is not the one of an old entry
      obtain rfl : x = y := Option.some.inj (hnew.symm.trans hsome)
      have hfresh := hq.fresh_of_pending (EventQueue.mem_live.1 he).2
      rw [← hid, hnext] at hfresh
      exact absurd hfresh (Nat.lt_irrefl _)

theorem of_dispatch {event : ε} (h : q.Changes (.dispatch id event) q') :
    ∃ e, e.id = id ∧ e.event = event ∧ q.Takes e q' ∧ q.stopsBy e.due = false := by
  cases h with
  | dispatch takes early => exact ⟨_, rfl, rfl, takes, early⟩

theorem of_discard (h : q.Changes .discard q') : ∀ e ∈ q.live, q.stopsBy e.due := by
  cases h with
  | discard drained late => exact late

/-- A fate befalls what is pending, and ends that. -/
theorem of_fate? (hq : q.WellFormed) (h : q.Changes d q') {f : Fate}
    (hf : d.fate? q id = some f) : q.isPending id = true ∧ q'.isPending id = false := by
  cases h with
  | @dispatch e _ takes early =>
    obtain ⟨rfl, -⟩ := Option.ite_none_right_eq_some.1 hf
    refine ⟨(EventQueue.mem_live.1 takes.mem).2, ?_⟩
    rw [Bool.eq_false_iff, ne_eq, takes.isPending_iff hq]
    exact fun hp => hp.1 rfl
  | callOff pending =>
    obtain ⟨rfl, -⟩ := Option.ite_none_right_eq_some.1 hf
    exact ⟨pending, by rw [isPending_cancel, bne_self_eq_false, Bool.false_and]⟩
  | discard drained =>
    exact ⟨(Option.ite_none_right_eq_some.1 hf).1, drained.isPending_eq id⟩
  | _ => cases hf

/-- Without a fate a number is pending afterwards if it was before, or has just been issued. -/
theorem of_no_fate (hq : q.WellFormed) (h : q.Changes d q') (hf : d.fate? q id = none) :
    q'.isPending id = true ↔ q.isPending id = true ∨ q.nextId ≤ id ∧ id < q'.nextId := by
  have hold (hid : q'.nextId = q.nextId) : ¬ (q.nextId ≤ id ∧ id < q'.nextId) := by
    rintro ⟨hle, hlt⟩
    exact absurd (hid ▸ hlt) (Nat.not_lt.2 hle)
  cases h with
  | issue time event =>
    have hnext : (q.scheduleAt time event).2.nextId = q.nextId + 1 := rfl
    rw [isPending_scheduleAt, Bool.or_eq_true, beq_iff_eq, hnext, or_comm, Nat.lt_succ_iff,
      ← le_antisymm_iff]
  | @dispatch e _ takes early =>
    have hne : e.id ≠ id := fun heq => Option.some_ne_none _ ((if_pos heq).symm.trans hf)
    rw [takes.isPending_iff hq, or_iff_left (hold takes.nextId)]
    exact and_iff_right hne.symm
  | @callOff k pending =>
    have hne : k ≠ id := fun heq => Option.some_ne_none _ ((if_pos heq).symm.trans hf)
    rw [isPending_cancel, Bool.and_eq_true, bne_iff_ne, or_iff_left (hold rfl)]
    exact and_iff_right hne
  | discard drained =>
    have hnot : q.isPending id = false := by
      cases hp : q.isPending id with
      | false => rfl
      | true => exact absurd ((if_pos hp).symm.trans hf) (Option.some_ne_none _)
    rw [drained.isPending_eq, hnot, or_iff_left (hold drained.nextId)]
  | stopAt => exact (or_iff_left (hold rfl)).symm
  | nothing keeps =>
    rw [isPending_congr hq keeps.wellFormed keeps.live, or_iff_left (hold keeps.nextId)]

/-- What is issued by a deed stays pending, unless the deed takes it away. -/
theorem size (hq : q.WellFormed) (h : q.Changes d q') :
    q.size + d.issued?.toList.length =
      q'.size + d.dispatched?.toList.length + d.callsOff.toNat + d.discarded q := by
  have hsize := (h.wellFormed hq).size_eq
  cases h with
  | issue time event =>
    rw [hsize, hq.size_eq, (hq.live_scheduleAt time event).length_eq]
    rfl
  | dispatch takes =>
    rw [hsize, hq.size_eq, takes.live.length_eq]
    rfl
  | callOff pending =>
    exact hq.size_cancel pending
  | discard drained =>
    rw [hsize, drained.live]
    exact (Nat.zero_add _).symm
  | stopAt => rfl
  | nothing keeps =>
    rw [hsize, hq.size_eq, keeps.live.length_eq]
    rfl

theorem dispatched (h : q.Changes d q') :
    q'.dispatched = q.dispatched + d.dispatched?.toList.length := by
  cases h with
  | dispatch takes => exact takes.dispatched
  | discard drained => exact drained.dispatched
  | nothing keeps => exact keeps.dispatched
  | _ => rfl

theorem stopTime (h : q.Changes d q') : q'.stopTime = d.stop?.or q.stopTime := by
  cases h with
  | dispatch takes => exact takes.stopTime
  | discard drained => exact drained.stopTime
  | nothing keeps => exact keeps.stopTime
  | _ => rfl

end Changes

/-! ## Requests in a row -/

/-- The queue after some requests. -/
def serveAll (q : EventQueue ε) (rs : List (Request ε)) : EventQueue ε :=
  rs.foldl (fun q r => (q.serve r).2) q

/-- What is asked of a queue and answered, one request after the other. -/
def history (q : EventQueue ε) : List (Request ε) → History ε
  | [] => []
  | r :: rest => q.exchange r :: (q.serve r).2.history rest

theorem serveAll_cons (q : EventQueue ε) (r : Request ε) (rest : List (Request ε)) :
    q.serveAll (r :: rest) = (q.serve r).2.serveAll rest := rfl

theorem history_append (q : EventQueue ε) (rs rs' : List (Request ε)) :
    q.history (rs ++ rs') = q.history rs ++ (q.serveAll rs).history rs' := by
  induction rs generalizing q with
  | nil => rfl
  | cons r rest ih => exact congrArg (q.exchange r :: ·) (ih _)

variable {rs : List (Request ε)} {id : EventId}

theorem WellFormed.serve (hq : q.WellFormed) (r : Request ε) : (q.serve r).2.WellFormed :=
  (hq.changes r).wellFormed hq

theorem WellFormed.serveAll (hq : q.WellFormed) (rs : List (Request ε)) :
    (q.serveAll rs).WellFormed := by
  induction rs generalizing q with
  | nil => exact hq
  | cons r rest ih => exact ih (hq.serve r)

/-- No reading of the clock is before one that was taken earlier. -/
theorem WellFormed.clocks_sorted (hq : q.WellFormed) (rs : List (Request ε)) :
    (q.clock :: (q.history rs).map fun x => x.after.clock).Pairwise (· ≤ ·) := by
  induction rs generalizing q with
  | nil => exact List.pairwise_singleton _ _
  | cons r rest ih =>
    have hstep := (hq.changes r).clock_le hq
    have hrest := ih (hq.serve r)
    refine List.pairwise_cons.2 ⟨fun t ht => ?_, hrest⟩
    rcases List.mem_cons.1 ht with rfl | ht
    · exact hstep
    · exact Nat.le_trans hstep (List.rel_of_pairwise_cons hrest ht)

/-- Numbers are issued in order, without gaps. -/
theorem WellFormed.ids_issued (hq : q.WellFormed) (rs : List (Request ε)) :
    List.range (q.serveAll rs).nextId =
      List.range q.nextId ++ (q.history rs).issued.map Entry.id := by
  induction rs generalizing q with
  | nil => exact (List.append_nil _).symm
  | cons r rest ih =>
    rw [serveAll_cons, ih (hq.serve r), history, History.issued_cons]
    rcases (hq.changes r).issued_cases with ⟨hnone, hnext⟩ | ⟨e, hsome, hid, hnext⟩
    · rw [hnext, hnone, Option.toList_none, List.nil_append]
    · rw [hnext, hsome, List.range_succ, Option.toList_some, List.map_append, List.map_singleton,
        hid, List.append_assoc]

/-- The queue counts what it dispatches. -/
theorem WellFormed.dispatched_eq (hq : q.WellFormed) (rs : List (Request ε)) :
    (q.serveAll rs).dispatched = q.dispatched + (q.history rs).dispatched.length := by
  induction rs generalizing q with
  | nil => rfl
  | cons r rest ih =>
    rw [serveAll_cons, ih (hq.serve r), (hq.changes r).dispatched, history,
      History.dispatched_cons, List.length_append, Nat.add_assoc]

/-- Every number issued is still pending or counted for what became of it. -/
theorem WellFormed.size_serveAll (hq : q.WellFormed) (rs : List (Request ε)) :
    q.size + (q.history rs).issued.length =
      (q.serveAll rs).size + (q.history rs).dispatched.length + (q.history rs).calledOff +
        (q.history rs).discarded := by
  induction rs generalizing q with
  | nil => rfl
  | cons r rest ih =>
    have hstep := (hq.changes r).size hq
    have hrest := ih (hq.serve r)
    have hbefore : (q.exchange r).before = q := rfl
    rw [serveAll_cons, history, History.issued_cons, History.dispatched_cons,
      History.calledOff_cons, History.discarded_cons, List.length_append, List.length_append,
      hbefore]
    omega

/-- The stop time of a queue is the one that was set last. -/
theorem WellFormed.stopTime_eq (hq : q.WellFormed) (rs : List (Request ε)) :
    (q.serveAll rs).stopTime = (q.history rs).lastStop?.or q.stopTime := by
  induction rs generalizing q with
  | nil => rfl
  | cons r rest ih =>
    rw [serveAll_cons, ih (hq.serve r), (hq.changes r).stopTime, history, History.lastStop?_cons,
      Option.or_assoc]

/-- What is pending was pending before or has been issued. -/
theorem WellFormed.mem_live_serveAll (hq : q.WellFormed) {e : Entry ε}
    (he : e ∈ (q.serveAll rs).live) : e ∈ q.live ∨ e ∈ (q.history rs).issued := by
  induction rs generalizing q with
  | nil => exact .inl he
  | cons r rest ih =>
    rw [history, History.issued_cons, List.mem_append]
    rcases ih (hq.serve r) he with hmid | hnew
    · exact ((hq.changes r).mem_live hq hmid).imp_right fun h => .inl (Option.mem_toList.2 h)
    · exact .inr (.inr hnew)

/-! ## What befalls a number -/

theorem WellFormed.nextId_le_serveAll (hq : q.WellFormed) (rs : List (Request ε)) :
    q.nextId ≤ (q.serveAll rs).nextId := by
  have h := congrArg List.length (hq.ids_issued rs)
  rw [List.length_append, List.length_range, List.length_range] at h
  exact h ▸ Nat.le_add_right _ _

/-- Nothing befalls a number that was issued and is not pending any more. -/
theorem WellFormed.fates_of_not_pending (hq : q.WellFormed) (hid : id < q.nextId)
    (hp : q.isPending id = false) :
    (q.history rs).fates id = [] ∧ (q.serveAll rs).isPending id = false := by
  induction rs generalizing q with
  | nil => exact ⟨rfl, hp⟩
  | cons r rest ih =>
    have hstep := hq.changes r
    have hnext : q.nextId ≤ (q.serve r).2.nextId := hq.nextId_le_serveAll [r]
    cases hf : (q.exchange r).deed.fate? q id with
    | some f =>
      have hpending := (hstep.of_fate? hq hf).1
      rw [hp] at hpending
      cases hpending
    | none =>
      have hafter : (q.serve r).2.isPending id = false := by
        rw [Bool.eq_false_iff, ne_eq, hstep.of_no_fate hq hf, hp]
        rintro (h | ⟨hle, -⟩)
        · cases h
        · exact absurd hid (Nat.not_lt.2 hle)
      have hrest := ih (hq.serve r) (Nat.lt_of_lt_of_le hid hnext) hafter
      rw [history, History.fates_cons]
      exact ⟨by rw [hrest.1]; exact congrArg (Option.toList · ++ []) hf, hrest.2⟩

/-- Nothing has befallen a number that is pending, and exactly one thing one that is not. -/
theorem WellFormed.fates_eq (hq : q.WellFormed) (h : q.isPending id = true ∨ q.nextId ≤ id)
    (hid : id < (q.serveAll rs).nextId) :
    if (q.serveAll rs).isPending id then (q.history rs).fates id = []
    else ∃ f, (q.history rs).fates id = [f] := by
  induction rs generalizing q with
  | nil =>
    have hp : (q.serveAll []).isPending id = true := h.resolve_right (Nat.not_le.2 hid)
    rw [if_pos hp]
    rfl
  | cons r rest ih =>
    have hstep := hq.changes r
    rw [history, History.fates_cons, serveAll_cons]
    cases hf : (q.exchange r).deed.fate? q id with
    | some f =>
      obtain ⟨hbefore, hafter⟩ := hstep.of_fate? hq hf
      have hold : id < q.nextId := hq.fresh_of_pending hbefore
      have hnext : q.nextId ≤ (q.serve r).2.nextId := hq.nextId_le_serveAll [r]
      obtain ⟨hnone, hend⟩ := @fates_of_not_pending _ _ _ rest _ (hq.serve r)
        (Nat.lt_of_lt_of_le hold hnext) hafter
      rw [hend, if_neg Bool.false_ne_true, hnone]
      exact ⟨f, congrArg (Option.toList · ++ []) hf⟩
    | none =>
      have hbefore : (q.exchange r).before = q := rfl
      rw [hbefore, hf, Option.toList_none, List.nil_append]
      refine ih (hq.serve r) ?_ hid
      rw [hstep.of_no_fate hq hf]
      rcases h with hp | hle
      · exact .inl (.inl hp)
      · rcases Nat.lt_or_ge id (q.serve r).2.nextId with hlt | hge
        · exact .inl (.inr ⟨hle, hlt⟩)
        · exact .inr hge

theorem WellFormed.not_mem_dispatched (hq : q.WellFormed) (hid : id < q.nextId)
    (hp : q.isPending id = false) (rs : List (Request ε)) :
    id ∉ (q.history rs).dispatched := by
  intro hmem
  have hfate := History.mem_fates_of_mem_dispatched hmem
  rw [(hq.fates_of_not_pending hid hp).1] at hfate
  cases hfate

/-- Of two pending events the first is never dispatched last. -/
theorem WellFormed.not_sublist_dispatched (hq : q.WellFormed) {a b : Entry ε} (ha : a ∈ q.live)
    (hb : b ∈ q.live) (hab : a.before b) (hne : a.id ≠ b.id) (rs : List (Request ε)) :
    ¬ [b.id, a.id].Sublist (q.history rs).dispatched := by
  induction rs generalizing q with
  | nil =>
    intro h
    cases h
  | cons r rest ih =>
    have hstep := hq.changes r
    have hq' := hq.serve r
    have hnext : q.nextId ≤ (q.serve r).2.nextId := hq.nextId_le_serveAll [r]
    have hold (e : Entry ε) (he : e ∈ q.live) : e.id < (q.serve r).2.nextId :=
      Nat.lt_of_lt_of_le (hq.fresh_of_pending (mem_live.1 he).2) hnext
    -- one that is not pending after this request will not be dispatched any more
    have hlater (e : Entry ε) (he : e ∈ q.live)
        (hmem : e.id ∈ ((q.serve r).2.history rest).dispatched) : e ∈ (q.serve r).2.live := by
      refine hstep.mem_live_of_isPending hq he ?_
      by_contra hp
      exact hq'.not_mem_dispatched (hold e he) (Bool.eq_false_iff.2 hp) rest hmem
    have hrest : ¬ [b.id, a.id].Sublist ((q.serve r).2.history rest).dispatched := fun hs =>
      ih hq' (hlater a ha (hs.subset (by simp))) (hlater b hb (hs.subset (by simp))) hs
    rw [history, History.dispatched_cons]
    cases hd : (q.exchange r).deed.dispatched? with
    | none => exact hrest
    | some k =>
      intro hs
      rcases List.sublist_cons_iff.1 hs with hs | ⟨_, heq, -⟩
      · exact hrest hs
      · obtain ⟨event, hdeed⟩ := Deed.of_dispatched?_eq_some hd
        obtain ⟨e, he, -, takes, -⟩ := (hdeed ▸ hstep).of_dispatch
        obtain ⟨rfl, -⟩ := List.cons.inj heq
        obtain rfl := hq.eq_of_id_eq takes.mem hb he
        exact hne (Entry.id_eq_of_before hab (takes.first a ha))

/-! ## New queues -/

/-- An exchange of a history is a request that was made after the earlier ones. -/
theorem exists_of_history_eq {pre post : History ε} {x : Exchange ε}
    (h : q.history rs = pre ++ x :: post) :
    ∃ rs₁ r, pre = q.history rs₁ ∧ x = (q.serveAll rs₁).exchange r := by
  induction rs generalizing q pre with
  | nil => exact absurd h (by simp [history])
  | cons r rest ih =>
    cases pre with
    | nil => exact ⟨[], r, rfl, (List.cons.inj h).1.symm⟩
    | cons y pre =>
      obtain ⟨rfl, htail⟩ := List.cons.inj h
      obtain ⟨rs₁, r', rfl, rfl⟩ := ih htail
      exact ⟨r :: rs₁, r', rfl, rfl⟩

/-- What is pending has been issued. -/
theorem mem_issued {e : Entry ε} (he : e ∈ (empty.serveAll rs).live) :
    e ∈ (empty.history rs).issued :=
  (wellFormed_empty.mem_live_serveAll he).resolve_left List.not_mem_nil

theorem ids_issued_empty (rs : List (Request ε)) :
    (empty.history rs).issued.map Entry.id = List.range (empty.serveAll rs).nextId :=
  (wellFormed_empty.ids_issued rs).symm

/-- An event that has been issued is there as long as its number is pending. -/
theorem mem_live_of_issued {e : Entry ε} (he : e ∈ (empty.history rs).issued)
    (hp : (empty.serveAll rs).isPending e.id) : e ∈ (empty.serveAll rs).live := by
  obtain ⟨x, hx, hid⟩ := (wellFormed_empty.serveAll rs).isPending_iff.1 hp
  have hnodup : ((empty.history rs).issued.map Entry.id).Nodup := by
    rw [ids_issued_empty]
    exact List.nodup_range
  rwa [← List.inj_on_of_nodup_map hnodup (mem_issued hx) he hid]

theorem not_mem_dispatched_of_isPending (h : (empty.serveAll rs).isPending id) :
    id ∉ (empty.history rs).dispatched := by
  intro hmem
  have hid := (wellFormed_empty.serveAll rs).fresh_of_pending h
  have hfates := wellFormed_empty.fates_eq (.inr (Nat.zero_le _)) hid
  rw [if_pos h] at hfates
  have hfate := History.mem_fates_of_mem_dispatched hmem
  rw [hfates] at hfate
  cases hfate

theorem stopTime_serveAll_empty (rs : List (Request ε)) :
    (empty.serveAll rs).stopTime = (empty.history rs).lastStop? := by
  rw [wellFormed_empty.stopTime_eq]
  exact Option.or_none

/-- What holds of a queue that was new when it was asked `rs`. -/
structure Orderly (rs : List (Request ε)) : Prop where
  /-- The clock never goes back. -/
  clocks : (Duration.zero :: (empty.history rs).map fun x => x.after.clock).Pairwise (· ≤ ·)
  /-- An event is dispatched when it is due, before the stop time that is set then. -/
  dispatch : ∀ pre x post id event, empty.history rs = pre ++ x :: post →
    x.deed = .dispatch id event → ∃ e ∈ History.issued pre,
      e.id = id ∧ e.event = event ∧ x.after.clock = e.due ∧
        ∀ stop, History.lastStop? pre = some stop → e.due < stop
  /-- Events are discarded if they are due at the stop time or later. -/
  discard : ∀ pre x post, empty.history rs = pre ++ x :: post → x.deed = .discard →
    ∀ e ∈ History.issued pre, x.before.isPending e.id →
      ∃ stop, History.lastStop? pre = some stop ∧ stop ≤ e.due
  ids : (empty.history rs).issued.map Entry.id = List.range (empty.serveAll rs).nextId
  /-- An event is pending, or one thing has become of it. -/
  fates : ∀ id ∈ (empty.history rs).issued.map Entry.id,
    if (empty.serveAll rs).isPending id then (empty.history rs).fates id = []
    else ∃ fate, (empty.history rs).fates id = [fate]
  dispatched : (empty.history rs).dispatched.length = (empty.serveAll rs).dispatched
  total : (empty.history rs).issued.length =
    (empty.serveAll rs).dispatched + (empty.serveAll rs).size + (empty.history rs).calledOff +
      (empty.history rs).discarded
  /-- Of two events that are pending together and due at the same time, the one of lower rank, or
  of the same rank and issued earlier, is not dispatched after the other. -/
  order : ∀ rs₁ rs₂, rs = rs₁ ++ rs₂ →
    ∀ a ∈ (empty.history rs₁).issued, ∀ b ∈ (empty.history rs₁).issued,
      (empty.serveAll rs₁).isPending a.id → (empty.serveAll rs₁).isPending b.id →
      a.due = b.due → a.rank < b.rank ∨ a.rank = b.rank ∧ a.id < b.id →
      ¬ [b.id, a.id].Sublist (empty.history rs).dispatched

/-- Whatever is asked of a new queue, in whatever order : the clock never goes back, every event is
dispatched when it is due or not at all, one thing becomes of each, and those that are due at the
same time go in order of rank and number. -/
theorem orderly_of_empty (rs : List (Request ε)) : Orderly rs where
  clocks := wellFormed_empty.clocks_sorted rs
  dispatch pre x post id event h hdeed := by
    obtain ⟨rs₁, r, rfl, rfl⟩ := exists_of_history_eq h
    have hq : (empty.serveAll rs₁).WellFormed := wellFormed_empty.serveAll rs₁
    obtain ⟨e, hid, hevent, takes, early⟩ := (hdeed ▸ hq.changes r).of_dispatch
    refine ⟨e, mem_issued takes.mem, hid, hevent, takes.clock, fun stop hstop => ?_⟩
    exact lt_of_not_stopsBy ((stopTime_serveAll_empty rs₁).trans hstop) early
  discard pre x post h hdeed e he hp := by
    obtain ⟨rs₁, r, rfl, rfl⟩ := exists_of_history_eq h
    have hq : (empty.serveAll rs₁).WellFormed := wellFormed_empty.serveAll rs₁
    have hlate := (hdeed ▸ hq.changes r).of_discard e (mem_live_of_issued he hp)
    obtain ⟨stop, hstop, hle⟩ := exists_stopTime_of_stopsBy hlate
    exact ⟨stop, (stopTime_serveAll_empty rs₁).symm.trans hstop, hle⟩
  ids := ids_issued_empty rs
  fates id hid := by
    rw [ids_issued_empty, List.mem_range] at hid
    exact wellFormed_empty.fates_eq (.inr (Nat.zero_le _)) hid
  dispatched := by
    rw [wellFormed_empty.dispatched_eq]
    exact (Nat.zero_add _).symm
  total := by
    have h := wellFormed_empty.size_serveAll rs
    have hsize : (empty : EventQueue ε).size = 0 := rfl
    have hcount : (empty : EventQueue ε).dispatched = 0 := rfl
    rw [wellFormed_empty.dispatched_eq]
    omega
  order rs₁ rs₂ hrs a ha b hb hpa hpb hdue hlt hs := by
    have hq : (empty.serveAll rs₁).WellFormed := wellFormed_empty.serveAll rs₁
    have hla := mem_live_of_issued ha hpa
    have hlb := mem_live_of_issued hb hpb
    rw [hrs, history_append, History.dispatched, List.filterMap_append,
      List.sublist_append_iff] at hs
    -- neither of the two has been dispatched as long as both are pending
    obtain ⟨l₁, l₂, heq, hs₁, hs₂⟩ := hs
    have hl₁ : l₁ = [] := by
      refine List.eq_nil_iff_forall_not_mem.2 fun id hid => ?_
      have hmem : id ∈ [b.id, a.id] := heq ▸ List.mem_append_left _ hid
      rcases List.mem_pair.1 hmem with rfl | rfl
      · exact not_mem_dispatched_of_isPending hpb (hs₁.subset hid)
      · exact not_mem_dispatched_of_isPending hpa (hs₁.subset hid)
    rw [hl₁, List.nil_append] at heq
    refine hq.not_sublist_dispatched hla hlb (Entry.before_iff.2 ?_) ?_ rs₂ (heq ▸ hs₂)
    · exact Entry.key_le_iff.2 (.inr ⟨hdue, hlt.imp_right (.imp_right Nat.le_of_lt)⟩)
    · intro hid
      obtain rfl := hq.eq_of_id_eq hla hlb hid
      simp at hlt

end Changes

end EventQueue

end SwarmFlight
