import Mathlib.Data.List.Sort
import SwarmFlight.Formation
import SwarmFlight.Proofs.Number.Clock

/-!
# The frames of a track

A track that is written down frame by frame (`Frame.records`) is cut into the same frames again
(`frames_flatMap_records`), as long as the frames follow each other in time and each of them is in
order of address (`Sequence`). The leader is the lowest address that was recorded
(`lowest_eq_some_iff`). If every frame starts with the same agent and has another one, then that
agent leads (`lowest_flatMap_records`), and the track has a score, in which distances are measured
from it (`exists_score`).
-/

namespace SwarmFlight

namespace Formation

/-- What is recorded of a frame. -/
def Frame.records (f : Frame) : List PositionRecord :=
  f.positions.map fun p => ⟨f.time, p.1, p.2⟩

/-- Whether a record stands before another of a different time or address. -/
def Precedes (a b : PositionRecord) : Prop :=
  a.time < b.time ∨ a.time = b.time ∧ a.id.raw < b.id.raw

/-- Frames that follow each other in time, none of them empty and each in order of address. -/
structure Sequence (fs : List Frame) : Prop where
  times : fs.Pairwise (·.time < ·.time)
  filled : ∀ f ∈ fs, f.positions ≠ []
  ids : ∀ f ∈ fs, f.positions.Pairwise (·.1.raw < ·.1.raw)

/-- The lowest address of a track. -/
structure IsLeader (records : List PositionRecord) (leader : Address) : Prop where
  recorded : ∃ r ∈ records, r.id = leader
  least : ∀ r ∈ records, leader.raw ≤ r.id.raw

/-- The first position of a frame is that of an agent, and it is not alone. -/
def Frame.LedBy (leader : Address) (f : Frame) : Prop :=
  ∃ position second rest, f.positions = (leader, position) :: second :: rest

variable {records : List PositionRecord} {a b c r : PositionRecord} {f : Frame} {fs : List Frame}
  {leader leader' : Address}

/-! ## Order -/

theorem inOrder_iff :
    inOrder a b ↔ a.time < b.time ∨ a.time = b.time ∧ a.id.raw ≤ b.id.raw := by
  simp [inOrder]

theorem inOrder_trans (a b c : PositionRecord) (hab : inOrder a b) (hbc : inOrder b c) :
    inOrder a c := by
  rw [inOrder_iff] at hab hbc ⊢
  rcases hab with hab | ⟨hab, hid⟩
  · refine .inl ?_
    rcases hbc with hbc | ⟨hbc, -⟩
    · exact Nat.lt_trans hab hbc
    · exact hbc ▸ hab
  · rw [hab]
    exact hbc.imp_right fun ⟨hbc, hid'⟩ => ⟨hbc, UInt32.le_trans hid hid'⟩

theorem inOrder_total (a b : PositionRecord) : inOrder a b || inOrder b a := by
  rw [Bool.or_eq_true, inOrder_iff, inOrder_iff, Duration.lt_def, Duration.lt_def,
    Duration.nanos_inj, Duration.nanos_inj, UInt32.le_iff_toNat_le, UInt32.le_iff_toNat_le]
  omega

theorem Precedes.inOrder (h : Precedes a b) : Formation.inOrder a b :=
  inOrder_iff.2 (h.imp_right (And.imp_right UInt32.le_of_lt))

theorem Precedes.not_inOrder (h : Precedes a b) : ¬ Formation.inOrder b a := by
  rw [inOrder_iff, Duration.lt_def, Duration.nanos_inj, UInt32.le_iff_toNat_le]
  rw [Precedes, Duration.lt_def, Duration.nanos_inj, UInt32.lt_iff_toNat_lt] at h
  omega

/-- There is one way to put records of different times or addresses in order. -/
theorem eq_of_perm {l : List PositionRecord} (hperm : l.Perm records)
    (hsorted : l.Pairwise fun a b => inOrder a b) (h : records.Pairwise Precedes) : l = records := by
  -- of two different records only one stands before the other
  have hantisymm : ∀ ⦃a⦄, a ∈ records → ∀ ⦃b⦄, b ∈ records → inOrder a b → inOrder b a → a = b :=
    List.Pairwise.forall_of_forall_of_flip (fun _ _ _ _ => rfl)
      (h.imp fun hab _ hba => absurd hba hab.not_inOrder)
      (h.imp fun hab hba _ => absurd hba hab.not_inOrder)
  exact hperm.eq_of_pairwise (fun a b ha hb => hantisymm (hperm.mem_iff.1 ha) hb) hsorted
    (h.imp Precedes.inOrder)

/-- Records are put in their order, whatever order they came in. -/
theorem mergeSort_reverse (h : records.Pairwise Precedes) :
    records.reverse.mergeSort inOrder = records :=
  eq_of_perm ((List.mergeSort_perm _ _).trans records.reverse_perm)
    (List.pairwise_mergeSort inOrder_trans inOrder_total _) h

/-- No record takes the place of another one. -/
theorem foldr_override (h : records.Pairwise Precedes) : records.foldr override [] = records := by
  induction h with
  | nil => rfl
  | @cons r rest hr _ ih =>
    rw [List.foldr_cons, ih]
    cases rest with
    | nil => rfl
    | cons b rest =>
      refine if_neg fun ⟨htime, hid⟩ => (hr b List.mem_cons_self).not_inOrder ?_
      exact inOrder_iff.2 (.inr ⟨htime, hid ▸ UInt32.le_refl _⟩)

theorem latest_eq_self (h : records.Pairwise Precedes) : latest records = records := by
  rw [latest, mergeSort_reverse h, foldr_override h]

/-! ## Frames -/

theorem Sequence.tail (h : Sequence (f :: fs)) : Sequence fs :=
  ⟨(List.pairwise_cons.1 h.times).2, fun g hg => h.filled g (List.mem_cons_of_mem _ hg),
    fun g hg => h.ids g (List.mem_cons_of_mem _ hg)⟩

theorem mem_records : r ∈ f.records ↔ r.time = f.time ∧ (r.id, r.position) ∈ f.positions := by
  rw [Frame.records, List.mem_map]
  constructor
  · rintro ⟨p, hp, rfl⟩
    exact ⟨rfl, hp⟩
  · rintro ⟨htime, hp⟩
    exact ⟨_, hp, by rw [← htime]⟩

/-- The records of a track are in order. -/
theorem Sequence.pairwise_records (h : Sequence fs) :
    (fs.flatMap Frame.records).Pairwise Precedes := by
  refine List.pairwise_flatMap.2 ⟨fun f hf => ?_, h.times.imp fun hlt a ha b hb => .inl ?_⟩
  · exact List.pairwise_map.2 ((h.ids f hf).imp fun hlt => .inr ⟨rfl, hlt⟩)
  · rw [(mem_records.1 ha).1, (mem_records.1 hb).1]
    exact hlt

/-- The records of one instant make up one frame. -/
theorem foldr_enter_records (hfilled : f.positions ≠ [])
    (hother : ∀ g, fs.head? = some g → g.time ≠ f.time) :
    f.records.foldr enter fs = f :: fs := by
  obtain ⟨time, positions⟩ := f
  induction positions with
  | nil => exact absurd rfl hfilled
  | cons p positions ih =>
    obtain ⟨id, position⟩ := p
    cases positions with
    | nil =>
      cases fs with
      | nil => rfl
      | cons g fs => exact if_neg (hother g rfl)
    | cons p positions =>
      have hrest := ih (List.cons_ne_nil _ _) hother
      rw [Frame.records] at hrest ⊢
      rw [List.map_cons, List.foldr_cons, hrest]
      exact if_pos rfl

/-- A track that was written down frame by frame is cut into the same frames. -/
theorem frames_flatMap_records (h : Sequence fs) : frames (fs.flatMap Frame.records) = fs := by
  rw [frames, latest_eq_self h.pairwise_records]
  induction fs with
  | nil => rfl
  | cons f fs ih =>
    rw [List.flatMap_cons, List.foldr_append, ih h.tail]
    refine foldr_enter_records (h.filled f List.mem_cons_self) fun g hg heq => ?_
    have hlt := (List.pairwise_cons.1 h.times).1 g (List.mem_of_head? hg)
    exact absurd hlt (heq ▸ Nat.lt_irrefl _)

/-! ## The leader -/

theorem isLeader_foldl (r : PositionRecord) (rest : List PositionRecord) :
    IsLeader (r :: rest)
      (rest.foldl (fun a s => if s.id.raw < a.raw then s.id else a) r.id) := by
  induction rest generalizing r with
  | nil => exact ⟨⟨r, List.mem_cons_self, rfl⟩, by simp⟩
  | cons s rest ih =>
    rw [List.foldl_cons]
    split
    · rename_i hlt
      obtain ⟨⟨x, hx, hid⟩, hleast⟩ := ih s
      refine ⟨⟨x, List.mem_cons_of_mem _ hx, hid⟩, List.forall_mem_cons.2 ⟨?_, hleast⟩⟩
      exact UInt32.le_trans (hleast s List.mem_cons_self) (UInt32.le_of_lt hlt)
    · rename_i hge
      obtain ⟨⟨x, hx, hid⟩, hleast⟩ := ih r
      obtain ⟨hr, hrest⟩ := List.forall_mem_cons.1 hleast
      refine ⟨⟨x, ?_, hid⟩, List.forall_mem_cons.2 ⟨hr, List.forall_mem_cons.2 ⟨?_, hrest⟩⟩⟩
      · exact (List.mem_cons.1 hx).elim (fun h => h ▸ List.mem_cons_self)
          fun h => List.mem_cons_of_mem _ (List.mem_cons_of_mem _ h)
      · exact UInt32.le_trans hr (UInt32.not_lt.1 hge)

theorem IsLeader.eq (h : IsLeader records leader) (h' : IsLeader records leader') :
    leader = leader' := by
  obtain ⟨r, hr, rfl⟩ := h.recorded
  obtain ⟨r', hr', rfl⟩ := h'.recorded
  exact congrArg Address.mk (UInt32.le_antisymm (h.least r' hr') (h'.least r hr))

theorem lowest_eq_some_iff : lowest records = some leader ↔ IsLeader records leader := by
  cases records with
  | nil => exact ⟨nofun, fun ⟨⟨_, hr, _⟩, _⟩ => absurd hr List.not_mem_nil⟩
  | cons r rest =>
    constructor
    · intro h
      cases h
      exact isLeader_foldl r rest
    · exact fun h => congrArg some ((isLeader_foldl r rest).eq h)

theorem Frame.LedBy.le (h : f.LedBy leader) (hids : f.positions.Pairwise (·.1.raw < ·.1.raw)) :
    ∀ r ∈ f.records, leader.raw ≤ r.id.raw := by
  obtain ⟨position, second, rest, heq⟩ := h
  rw [heq] at hids
  intro r hr
  have hmem := (mem_records.1 hr).2
  rw [heq] at hmem
  rcases List.mem_cons.1 hmem with hfirst | hrest
  · rw [(Prod.mk.inj hfirst).1]
    exact UInt32.le_refl _
  · exact UInt32.le_of_lt ((List.pairwise_cons.1 hids).1 _ hrest)

/-- The agent that every frame starts with is the leader of the track. -/
theorem lowest_flatMap_records (h : Sequence fs) (hsome : fs ≠ [])
    (hled : ∀ f ∈ fs, f.LedBy leader) : lowest (fs.flatMap Frame.records) = some leader := by
  obtain ⟨f, fs, rfl⟩ := List.exists_cons_of_ne_nil hsome
  obtain ⟨position, second, rest, heq⟩ := hled f List.mem_cons_self
  have hfirst : ⟨f.time, leader, position⟩ ∈ f.records :=
    mem_records.2 ⟨rfl, heq ▸ List.mem_cons_self⟩
  refine lowest_eq_some_iff.2
    ⟨⟨_, List.mem_flatMap.2 ⟨f, List.mem_cons_self, hfirst⟩, rfl⟩, fun r hr => ?_⟩
  obtain ⟨g, hg, hr⟩ := List.mem_flatMap.1 hr
  exact (hled g hg).le (h.ids g hg) r hr

/-- The distances in a frame are those of its other agents from the first one. -/
theorem leaderDistance?_eq {position : Vec3} {others : List (Address × Vec3)}
    (hf : f.positions = (leader, position) :: others)
    (hids : f.positions.Pairwise (·.1.raw < ·.1.raw)) :
    f.leaderDistance? leader = mean (others.map (·.2.distanceTo position)) := by
  rw [hf] at hids
  have hothers : others.filter (·.1 ≠ leader) = others := by
    refine List.filter_eq_self.2 fun p hp => decide_eq_true fun heq => ?_
    have hlt := (List.pairwise_cons.1 hids).1 p hp
    exact absurd hlt (heq ▸ UInt32.lt_irrefl _)
  have hfollowers : f.followers leader = others.map Prod.snd := by
    rw [Frame.followers, hf, List.filter_cons_of_neg (by simp), hothers]
  have hget : f.get? leader = some position := by
    rw [Frame.get?, hf, List.find?_cons_of_pos (by simp)]
    rfl
  rw [Frame.leaderDistance?, hget, hfollowers, Option.bind_eq_bind, Option.bind_some, List.map_map]
  rfl

/-! ## The score -/

theorem isSome_mean_iff {values : List Float} : (mean values).isSome ↔ values ≠ [] := by
  rw [mean]
  split
  · rename_i h
    simp [List.isEmpty_iff.1 h]
  · rename_i h
    simpa using h

/-- A track whose frames are led by one agent has a score, in which distances are measured from this
agent. -/
theorem exists_score (weights : FormationWeights) (h : Sequence fs) (hsome : fs ≠ [])
    (hled : ∀ f ∈ fs, f.LedBy leader) : ∃ score,
      Formation.score weights (fs.flatMap Frame.records) = some score ∧
      score.frames = fs.length ∧
      mean (fs.filterMap (Frame.leaderDistance? leader)) = some score.leaderDistance := by
  have hdistances : fs.filterMap (Frame.leaderDistance? leader) ≠ [] := by
    obtain ⟨f, hf⟩ := List.exists_mem_of_ne_nil fs hsome
    obtain ⟨position, second, rest, heq⟩ := hled f hf
    have hdistance : (f.leaderDistance? leader).isSome := by
      rw [leaderDistance?_eq heq (h.ids f hf)]
      exact isSome_mean_iff.2 (by simp)
    obtain ⟨d, hd⟩ := Option.isSome_iff_exists.1 hdistance
    exact List.ne_nil_of_mem (List.mem_filterMap.2 ⟨f, hf, hd⟩)
  obtain ⟨d, hd⟩ := Option.isSome_iff_exists.1 (isSome_mean_iff.2 hdistances)
  refine ⟨?score, ?scored, ?_, ?_⟩
  case scored =>
    rw [Formation.score, lowest_flatMap_records h hsome hled, frames_flatMap_records h]
    simp only [Option.bind_eq_bind, Option.bind_some, hd]
    rfl
  · rfl
  · exact hd

end Formation

end SwarmFlight
