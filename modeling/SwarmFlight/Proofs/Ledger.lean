import SwarmFlight.Ledger
import SwarmFlight.Proofs.Peers

/-!
# What a ledger keeps

Planning `Adds` compromises that have not taken place, all for the instant of the ledger and
numbered on, and only for agents that are new and selected. It comes to the end of the
candidates or breaks off because the ledger is full (`exists_adds`). That one takes place is
turned down, or has been noted before, or is noted now (`fire_cases`). Then nothing else
changes (`dueFor_fire`, `hasFired_fire`, `firedAt_fire`), and one more has taken place
(`firedCount_fire`).
-/

namespace SwarmFlight

namespace Ledger

variable {l l' : Ledger} {id : Address} {now : Instant}

/-- When the compromise of an agent took place, if it has. -/
def firedAt (l : Ledger) (id : Address) : Option Instant := (l.planned.get? id).bind Compromise.fired

theorem hasFired_eq (l : Ledger) (id : Address) : l.hasFired id = (l.firedAt id).isSome := rfl

theorem mem_keys_of_firedAt (h : l.firedAt id = some now) : id ∈ l.planned.keys := by
  obtain ⟨c, hc, -⟩ := Option.bind_eq_some_iff.1 h
  exact Registry.isSome_get?_iff.1 (Option.isSome_of_eq_some hc)

/-! ## Planning -/

/-- A ledger all of whose compromises have some property. -/
def Forall (P : Compromise → Prop) (l : Ledger) : Prop := ∀ e ∈ l.planned.entries, P e.2

/-- `l'` is `l` with some compromises added at the end, for selected followers among some
candidates. -/
structure Adds (l : Ledger) (selects : Address → Bool) (candidates : List (Address × Role))
    (new : List Compromise) (l' : Ledger) : Prop where
  due : l'.due = l.due
  nextNumber : l'.nextNumber = l.nextNumber + new.length
  entries : l'.planned.entries = l.planned.entries ++ new.map fun c => (c.target, c)
  numbers : new.map Compromise.number = List.range' l.nextNumber new.length
  fresh : ∀ c ∈ new, c.due = l.due ∧ c.fired = none
  chosen : ∀ c ∈ new, selects c.target ∧ (c.target, .follower) ∈ candidates

section

variable {selects : Address → Bool} {role : Role} {candidates : List (Address × Role)}
  {new : List Compromise} {added : Nat}

/-- A compromise is planned for a selected follower who is not in the ledger. -/
theorem choose_eq_planned (h : l.choose selects id role = .planned l') :
    selects id ∧ role = .follower ∧ l'.due = l.due ∧ l'.nextNumber = l.nextNumber + 1 ∧
      l'.planned.entries = l.planned.entries ++ [(id, ⟨l.nextNumber, id, l.due, none⟩)] := by
  unfold choose at h
  split at h
  · cases h
  rename_i hnot
  rw [Bool.or_eq_true, not_or, Bool.not_eq_true', Bool.not_eq_false] at hnot
  obtain ⟨hselects, hnew⟩ := hnot
  split at h
  · cases h
  rename_i hrole
  split at h
  · rename_i planned hput
    cases h
    have hkeys : id ∉ l.planned.keys := by simpa [Registry.contains] using hnew
    have hentries := Registry.put?_of_not_mem ⟨l.nextNumber, id, l.due, none⟩ hkeys
    rw [hput] at hentries
    split at hentries
    · refine ⟨hselects, ?_, rfl, rfl, Option.some.inj hentries⟩
      cases role with
      | follower => rfl
      | leader => exact absurd rfl hrole
    · cases hentries
  · cases h

theorem mem_keys_of_passed (hselects : selects id) (h : l.choose selects id role = .passed) :
    id ∈ l.planned.keys := by
  unfold choose at h
  split at h
  · rename_i hpassed
    simpa [hselects, Registry.contains] using hpassed
  · split at h
    · cases h
    · split at h <;> cases h

theorem role_of_choose (h : l.choose selects id role = .leader) : role = .leader := by
  unfold choose at h
  split at h
  · cases h
  · split at h
    · rename_i hrole
      cases role with
      | follower => cases hrole
      | leader => rfl
    · split at h <;> cases h

/-- There is no room if the ledger is full. -/
theorem size_of_choose (h : l.choose selects id role = .noRoom) :
    l.planned.size = swarmLimit := by
  unfold choose at h
  split at h
  · cases h
  split at h
  · cases h
  split at h
  · cases h
  · rename_i hput
    exact (Registry.put?_eq_none_iff.1 hput).2

theorem Adds.refl (l : Ledger) (selects : Address → Bool) (candidates : List (Address × Role)) :
    l.Adds selects candidates [] l :=
  ⟨rfl, rfl, (List.append_nil _).symm, rfl, by simp, by simp⟩

theorem Adds.skip (h : l.Adds selects candidates new l') (x : Address × Role) :
    l.Adds selects (x :: candidates) new l' :=
  { h with chosen := fun c hc =>
      ⟨(h.chosen c hc).1, List.mem_cons_of_mem _ (h.chosen c hc).2⟩ }

theorem Adds.cons {l₁ : Ledger} (hchoose : l.choose selects id role = .planned l₁)
    (h : l₁.Adds selects candidates new l') :
    l.Adds selects ((id, role) :: candidates) (⟨l.nextNumber, id, l.due, none⟩ :: new) l' := by
  obtain ⟨hselects, rfl, hdue, hnext, hentries⟩ := choose_eq_planned hchoose
  refine ⟨h.due.trans hdue, ?_, ?_, ?_, ?_, ?_⟩
  · rw [h.nextNumber, hnext, List.length_cons, Nat.add_right_comm, Nat.add_assoc]
  · rw [h.entries, hentries, List.append_assoc]
    rfl
  · rw [List.map_cons, h.numbers, hnext, List.length_cons, List.range'_succ]
  · exact List.forall_mem_cons.2 ⟨⟨rfl, rfl⟩, fun c hc => hdue ▸ h.fresh c hc⟩
  · refine List.forall_mem_cons.2 ⟨⟨hselects, List.mem_cons_self⟩, fun c hc => ?_⟩
    exact ⟨(h.chosen c hc).1, List.mem_cons_of_mem _ (h.chosen c hc).2⟩

/-- Planning adds some compromises and counts them, or breaks off when the ledger is full. -/
theorem exists_adds (l : Ledger) (selects : Address → Bool) (added : Nat)
    (candidates : List (Address × Role)) : ∃ new,
      l.Adds selects candidates new (planFrom selects l added candidates).ledger ∧
      ((planFrom selects l added candidates).added = .ok (added + new.length) ∨
        (planFrom selects l added candidates).added = .error .swarmSizeExceeded ∧
          (planFrom selects l added candidates).ledger.plannedCount = swarmLimit) := by
  induction candidates generalizing l added with
  | nil => exact ⟨[], .refl l selects [], .inl rfl⟩
  | cons x rest ih =>
    obtain ⟨id, role⟩ := x
    cases hchoose : l.choose selects id role with
    | passed =>
      obtain ⟨new, hadds, hcount⟩ := ih l added
      simp only [planFrom, hchoose]
      exact ⟨new, hadds.skip _, hcount⟩
    | leader =>
      obtain ⟨new, hadds, hcount⟩ := ih l added
      simp only [planFrom, hchoose]
      exact ⟨new, hadds.skip _, hcount⟩
    | planned l₁ =>
      obtain ⟨new, hadds, hcount⟩ := ih l₁ (added + 1)
      simp only [planFrom, hchoose]
      rw [Nat.add_assoc, Nat.add_comm 1] at hcount
      exact ⟨_, .cons hchoose hadds, hcount⟩
    | noRoom =>
      simp only [planFrom, hchoose]
      exact ⟨[], .refl l selects _, .inr ⟨trivial, size_of_choose hchoose⟩⟩

theorem Adds.forall {P : Compromise → Prop} (h : l.Adds selects candidates new l')
    (hp : l.Forall P) (hnew : ∀ n id, P ⟨n, id, l.due, none⟩) : l'.Forall P := by
  intro e he
  rw [h.entries, List.mem_append, List.mem_map] at he
  rcases he with he | ⟨⟨n, target, due, fired⟩, hc, rfl⟩
  · exact hp e he
  · obtain ⟨rfl, rfl⟩ := h.fresh _ hc
    exact hnew n target

/-- Planning adds compromises for the instant of the ledger that have not taken place. -/
theorem forall_planFrom {P : Compromise → Prop} (hp : l.Forall P)
    (hnew : ∀ n id, P ⟨n, id, l.due, none⟩) :
    (planFrom selects l added candidates).ledger.Forall P ∧
      (planFrom selects l added candidates).ledger.due = l.due := by
  obtain ⟨new, hadds, -⟩ := exists_adds l selects added candidates
  exact ⟨hadds.forall hp hnew, hadds.due⟩

theorem Adds.keys (h : l.Adds selects candidates new l') :
    l'.planned.keys = l.planned.keys ++ new.map Compromise.target := by
  rw [Registry.keys, h.entries, List.map_append, List.map_map]
  rfl

theorem mem_keys_planFrom (hid : id ∈ l.planned.keys) (selects : Address → Bool) (added : Nat)
    (candidates : List (Address × Role)) :
    id ∈ (planFrom selects l added candidates).ledger.planned.keys := by
  obtain ⟨new, hadds, -⟩ := exists_adds l selects added candidates
  exact hadds.keys ▸ List.mem_append_left _ hid

/-- Planning that does not break off plans for every selected follower. -/
theorem mem_keys_of_planFrom {n : Nat} (h : (planFrom selects l added candidates).added = .ok n)
    (hid : (id, .follower) ∈ candidates) (hselects : selects id) :
    id ∈ (planFrom selects l added candidates).ledger.planned.keys := by
  induction candidates generalizing l added with
  | nil => cases hid
  | cons x rest ih =>
    obtain ⟨a, role⟩ := x
    -- whoever is in the ledger when the first candidate has been considered stays in it
    cases hchoose : l.choose selects a role with
    | passed =>
      simp only [planFrom, hchoose] at h ⊢
      rcases List.mem_cons.1 hid with heq | hid
      · cases heq
        exact mem_keys_planFrom (mem_keys_of_passed hselects hchoose) selects added rest
      · exact ih h hid
    | leader =>
      simp only [planFrom, hchoose] at h ⊢
      rcases List.mem_cons.1 hid with heq | hid
      · cases heq
        cases role_of_choose hchoose
      · exact ih h hid
    | planned l₁ =>
      simp only [planFrom, hchoose] at h ⊢
      rcases List.mem_cons.1 hid with heq | hid
      · cases heq
        obtain ⟨-, -, -, -, hentries⟩ := choose_eq_planned hchoose
        refine mem_keys_planFrom ?_ selects (added + 1) rest
        simp [Registry.keys, hentries]
      · exact ih h hid
    | noRoom =>
      simp only [planFrom, hchoose] at h
      cases h

/-- Only those who were selected are planned for. -/
theorem selects_of_planFrom (hl : ∀ b ∈ l.planned.keys, selects b) :
    ∀ b ∈ (planFrom selects l added candidates).ledger.planned.keys, selects b := by
  obtain ⟨new, hadds, -⟩ := exists_adds l selects added candidates
  intro b hb
  rw [hadds.keys, List.mem_append, List.mem_map] at hb
  rcases hb with hb | ⟨c, hc, rfl⟩
  · exact hl b hb
  · exact (hadds.chosen c hc).1

end

/-- No compromise has taken place. -/
theorem hasFired_eq_false (h : l.Forall fun c => c.fired = none) (id : Address) :
    l.hasFired id = false := by
  unfold hasFired Registry.get?
  cases hfind : l.planned.entries.find? (·.1 = id) with
  | none => rfl
  | some e => simp [h e (List.mem_of_find?_eq_some hfind)]

theorem firedCount_eq_zero (h : l.Forall fun c => c.fired = none) : l.firedCount = 0 := by
  rw [firedCount, compromises, Registry.values, List.countP_map, List.countP_eq_zero]
  exact fun e he => by simp [h e he]

/-! ## Taking place -/

theorem fire_eq_ok (h : l.fire id now = .ok (true, l')) : ∃ c, l.planned.get? id = some c ∧
    c.fired = none ∧ l'.due = l.due ∧
      l.planned.put? id { c with fired := some now } = some l'.planned := by
  unfold fire at h
  split at h
  · cases h
  · rename_i c hc
    split at h
    · cases h
    · rename_i hfired
      split at h
      · rename_i planned hput
        cases h
        exact ⟨c, hc, Option.not_isSome_iff_eq_none.1 hfired, rfl, hput⟩
      · cases h

/-- A compromise that is planned can take place once. -/
theorem exists_fire (hdue : (l.dueFor id).isSome) (hnot : l.hasFired id = false)
    (now : Instant) : ∃ l', l.fire id now = .ok (true, l') := by
  obtain ⟨c, hc⟩ := Option.isSome_iff_exists.1 (Option.isSome_map.symm.trans hdue)
  have hfired : ¬ c.fired.isSome = true := by
    unfold hasFired at hnot
    rw [hc, Option.bind_some] at hnot
    rw [hnot]
    exact Bool.false_ne_true
  have hmem : id ∈ l.planned.keys := Registry.isSome_get?_iff.1 (by rw [hc]; rfl)
  have hput : l.planned.put? id { c with fired := some now } ≠ none := fun hnone =>
    (Registry.put?_eq_none_iff.1 hnone).1 hmem
  obtain ⟨planned, hplanned⟩ := Option.ne_none_iff_exists'.1 hput
  refine ⟨{ l with planned }, ?_⟩
  simp only [fire, hc, if_neg hfired, hplanned]

/-- A compromise is not planned, or took place before, or takes place now. -/
theorem fire_cases (l : Ledger) (id : Address) (now : Instant) :
    (id ∉ l.planned.keys ∧ l.fire id now = .error (.unknownAgent id)) ∨
      (id ∈ l.planned.keys ∧ (l.firedAt id).isSome ∧ l.fire id now = .ok (false, l)) ∨
      ∃ l', l.fire id now = .ok (true, l') := by
  cases hget : l.planned.get? id with
  | none =>
    have hkeys : id ∉ l.planned.keys := fun hid => by
      rw [← Registry.isSome_get?_iff, hget] at hid
      cases hid
    exact .inl ⟨hkeys, by simp only [fire, hget]⟩
  | some c =>
    have hkeys : id ∈ l.planned.keys := Registry.isSome_get?_iff.1 (Option.isSome_of_eq_some hget)
    have hfiredAt : l.firedAt id = c.fired := by rw [firedAt, hget, Option.bind_some]
    by_cases hfired : c.fired.isSome
    · exact .inr (.inl ⟨hkeys, hfiredAt ▸ hfired, by simp only [fire, hget, if_pos hfired]⟩)
    · have hdue : (l.dueFor id).isSome := by rw [dueFor, hget]; rfl
      have hnot : l.hasFired id = false := by
        rw [hasFired_eq, hfiredAt]
        exact eq_false_of_ne_true hfired
      exact .inr (.inr (exists_fire hdue hnot now))

theorem nextNumber_fire (h : l.fire id now = .ok (true, l')) :
    l'.nextNumber = l.nextNumber := by
  unfold fire at h
  split at h
  · cases h
  · split at h
    · cases h
    · split at h <;> cases h
      rfl

theorem entries_fire (h : l.fire id now = .ok (true, l')) : ∃ c, l.planned.get? id = some c ∧
    c.fired = none ∧ l'.planned.entries =
      Registry.overwrite id { c with fired := some now } l.planned.entries := by
  obtain ⟨c, hc, hfired, -, hput⟩ := fire_eq_ok h
  have hmem : id ∈ l.planned.keys := Registry.isSome_get?_iff.1 (Option.isSome_of_eq_some hc)
  have hentries := Registry.put?_of_mem { c with fired := some now } hmem
  rw [hput] at hentries
  exact ⟨c, hc, hfired, Option.some.inj hentries⟩

theorem keys_fire (h : l.fire id now = .ok (true, l')) : l'.planned.keys = l.planned.keys := by
  obtain ⟨c, -, -, hentries⟩ := entries_fire h
  rw [Registry.keys, hentries, Registry.keys_overwrite]
  rfl

/-- Of a compromise that takes place nothing changes but the note of it. -/
theorem map_fire {β : Type} {f : Compromise → β} (h : l.fire id now = .ok (true, l'))
    (hf : ∀ c : Compromise, f { c with fired := some now } = f c) :
    l'.compromises.map f = l.compromises.map f := by
  obtain ⟨c, hc, -, hentries⟩ := entries_fire h
  rw [compromises, Registry.values, hentries, List.map_map, compromises, Registry.values,
    List.map_map]
  refine Registry.map_overwrite fun e he hid => ?_
  have hsame : l.planned.get? id = some e.2 := Registry.get?_eq_some_iff.2 (hid ▸ he)
  rw [Function.comp_apply, Function.comp_apply, hf, Option.some.inj (hc.symm.trans hsame)]

theorem dueFor_fire (h : l.fire id now = .ok (true, l')) (b : Address) :
    l'.dueFor b = l.dueFor b := by
  obtain ⟨c, hc, -, -, hput⟩ := fire_eq_ok h
  rw [dueFor, dueFor, Registry.get?_put? hput]
  split
  · rename_i hb
    rw [hb, hc]
    rfl
  · rfl

theorem hasFired_fire (h : l.fire id now = .ok (true, l')) (b : Address) :
    l'.hasFired b ↔ b = id ∨ l.hasFired b := by
  obtain ⟨c, hc, -, -, hput⟩ := fire_eq_ok h
  rw [hasFired, hasFired, Registry.get?_put? hput]
  split
  · rename_i hb
    exact iff_of_true rfl (.inl hb)
  · rename_i hb
    exact (or_iff_right hb).symm

theorem firedAt_fire (h : l.fire id now = .ok (true, l')) (b : Address) :
    l'.firedAt b = if b = id then some now else l.firedAt b := by
  obtain ⟨c, hc, -, -, hput⟩ := fire_eq_ok h
  rw [firedAt, Registry.get?_put? hput]
  split <;> rfl

theorem countP_overwrite {c c' : Compromise} (hc : c.fired = none) (hc' : c'.fired.isSome)
    {entries : List (Address × Compromise)}
    (hget : (entries.find? (·.1 = id)).map Prod.snd = some c) :
    ((Registry.overwrite id c' entries).map Prod.snd).countP (·.fired.isSome) =
      (entries.map Prod.snd).countP (·.fired.isSome) + 1 := by
  induction entries with
  | nil => cases hget
  | cons e rest ih =>
    by_cases he : e.1 = id
    · have hsame : e.2 = c := by simpa [he] using hget
      simp [Registry.overwrite, he, hsame, hc, hc']
    · rw [List.find?_cons_of_neg (by simpa using he)] at hget
      simp only [Registry.overwrite, he, if_false, List.map_cons, List.countP_cons, ih hget]
      omega

theorem firedCount_fire (h : l.fire id now = .ok (true, l')) :
    l'.firedCount = l.firedCount + 1 := by
  obtain ⟨c, hc, hfired, hentries⟩ := entries_fire h
  rw [firedCount, compromises, Registry.values, hentries]
  exact countP_overwrite hfired rfl hc

end Ledger

end SwarmFlight
