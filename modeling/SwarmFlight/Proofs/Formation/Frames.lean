import SwarmFlight.Proofs.Formation

/-!
# What the frames of a track hold

Records may come in any order, and of several records of one agent at one instant the last one
counts (`lastPosition?`). The records that count are one for each instant and address, in order
(`pairwise_latest`, `find?_latest`), so they follow from the positions that count
(`latest_congr`).

The frames are these records cut up by time (`sequence_frames`, `flatMap_records_frames`). There
is one for each instant that anything was recorded at (`exists_mem_frames_iff`), and it holds the
position that counts of every agent (`get?_of_mem_frames`).
-/

namespace SwarmFlight

namespace Formation

/-- Whether a record is of an agent at an instant. -/
def isOf (time : Instant) (id : Address) (r : PositionRecord) : Bool := r.time = time ∧ r.id = id

/-- The position of an agent at an instant : the one recorded last. -/
def lastPosition? (records : List PositionRecord) (time : Instant) (id : Address) : Option Vec3 :=
  (records.reverse.find? (isOf time id)).map PositionRecord.position

variable {records records' : List PositionRecord} {a b r : PositionRecord} {f : Frame}
  {fs : List Frame} {id : Address} {time : Instant} {p : Vec3}

/-! ## Records of an agent at an instant -/

theorem isOf_iff : isOf time id r ↔ r.time = time ∧ r.id = id := decide_eq_true_iff

theorem isOf_self (r : PositionRecord) : isOf r.time r.id r := isOf_iff.2 ⟨rfl, rfl⟩

theorem eq_of_isOf (h : isOf time id r) : r = ⟨time, id, r.position⟩ := by
  obtain ⟨rfl, rfl⟩ := isOf_iff.1 h
  rfl

theorem isSome_lastPosition?_iff :
    (lastPosition? records time id).isSome ↔ ∃ r ∈ records, r.time = time ∧ r.id = id := by
  rw [lastPosition?, Option.isSome_map, List.find?_isSome]
  simp only [List.mem_reverse, isOf_iff]

theorem exists_id_iff :
    (∃ r ∈ records, r.id = id) ↔ ∃ time, (lastPosition? records time id).isSome := by
  simp only [isSome_lastPosition?_iff]
  exact ⟨fun ⟨r, hr, hid⟩ => ⟨r.time, r, hr, rfl, hid⟩, fun ⟨_, r, hr, _, hid⟩ => ⟨r, hr, hid⟩⟩

/-! ## Sorting -/

/-- Records of one agent at one instant keep their order when a track is sorted. -/
theorem filter_mergeSort (l : List PositionRecord) (time : Instant) (id : Address) :
    (l.mergeSort inOrder).filter (isOf time id) = l.filter (isOf time id) := by
  have hsorted : (l.filter (isOf time id)).Pairwise fun a b => inOrder a b := by
    refine List.pairwise_of_forall_mem_list fun a ha b hb => inOrder_iff.2 (.inr ?_)
    obtain ⟨hatime, haid⟩ := isOf_iff.1 (List.of_mem_filter ha)
    obtain ⟨hbtime, hbid⟩ := isOf_iff.1 (List.of_mem_filter hb)
    exact ⟨hatime.trans hbtime.symm, by rw [haid, hbid]; exact UInt32.le_refl _⟩
  have hsub : (l.filter (isOf time id)).Sublist (l.mergeSort inOrder) :=
    List.sublist_mergeSort inOrder_trans inOrder_total hsorted List.filter_sublist
  have hsub' := hsub.filter (isOf time id)
  simp only [List.filter_filter, Bool.and_self] at hsub'
  exact (hsub'.eq_of_length ((List.mergeSort_perm l _).filter _).length_eq.symm).symm

theorem find?_mergeSort (l : List PositionRecord) (time : Instant) (id : Address) :
    (l.mergeSort inOrder).find? (isOf time id) = l.find? (isOf time id) := by
  rw [← List.head?_filter, ← List.head?_filter, filter_mergeSort]

/-! ## Overriding -/

/-- What is put in place of another record is found in its place. -/
theorem find?_override (r : PositionRecord) (l : List PositionRecord) (time : Instant)
    (id : Address) : (override r l).find? (isOf time id) = (r :: l).find? (isOf time id) := by
  cases l with
  | nil => rfl
  | cons s rest =>
    rw [override]
    split
    · rename_i h
      have hsame : isOf time id s = isOf time id r := by simp only [isOf, h.1, h.2]
      by_cases hr : isOf time id r
      · rw [List.find?_cons_of_pos hr, List.find?_cons_of_pos hr]
      · rw [List.find?_cons_of_neg hr, List.find?_cons_of_neg hr,
          List.find?_cons_of_neg (hsame ▸ hr)]
    · rfl

theorem find?_foldr_override (l : List PositionRecord) (time : Instant) (id : Address) :
    (l.foldr override []).find? (isOf time id) = l.find? (isOf time id) := by
  induction l with
  | nil => rfl
  | cons r l ih =>
    rw [List.foldr_cons, find?_override]
    simp only [List.find?_cons, ih]

theorem mem_of_mem_override {l : List PositionRecord} (h : a ∈ override r l) : a = r ∨ a ∈ l := by
  cases l with
  | nil => exact .inl (List.mem_singleton.1 h)
  | cons s rest =>
    rw [override] at h
    split at h
    · exact (List.mem_cons.1 h).imp_right (List.mem_cons_of_mem _)
    · exact List.mem_cons.1 h

theorem mem_of_mem_foldr_override {l : List PositionRecord} (h : a ∈ l.foldr override []) :
    a ∈ l := by
  induction l with
  | nil => exact h
  | cons r l ih =>
    rcases mem_of_mem_override h with rfl | h
    · exact List.mem_cons_self
    · exact List.mem_cons_of_mem _ (ih h)

/-! ## The records that count -/

theorem Precedes.trans (hab : Precedes a b) (hbr : Precedes b r) : Precedes a r := by
  rw [Precedes, Duration.lt_def, Duration.nanos_inj, UInt32.lt_iff_toNat_lt] at *
  omega

theorem Precedes.of_inOrder (h : Formation.inOrder a b) (hne : ¬ (b.time = a.time ∧ b.id = a.id)) :
    Precedes a b := by
  refine (inOrder_iff.1 h).imp_right fun ⟨htime, hid⟩ => ⟨htime, UInt32.lt_of_le_of_ne hid ?_⟩
  exact fun hraw => hne ⟨htime.symm, (congrArg Address.mk hraw).symm⟩

theorem Precedes.ne (h : Precedes a b) : a ≠ b := fun heq => h.not_inOrder (heq ▸ h.inOrder)

theorem Precedes.not_isOf (h : Precedes a b) : ¬ isOf b.time b.id a := fun hsame => by
  obtain ⟨htime, hid⟩ := isOf_iff.1 hsame
  exact h.not_inOrder (inOrder_iff.2 (.inr ⟨htime.symm, hid ▸ UInt32.le_refl _⟩))

theorem pairwise_foldr_override {l : List PositionRecord}
    (h : l.Pairwise fun a b => inOrder a b) : (l.foldr override []).Pairwise Precedes := by
  induction l with
  | nil => exact .nil
  | cons r l ih =>
    obtain ⟨hr, hl⟩ := List.pairwise_cons.1 h
    have hmem : ∀ a ∈ l.foldr override [], inOrder r a :=
      fun a ha => hr a (mem_of_mem_foldr_override ha)
    have hrest := ih hl
    rw [List.foldr_cons]
    generalize l.foldr override [] = rest at hmem hrest
    cases rest with
    | nil => exact List.pairwise_singleton _ _
    | cons s rest =>
      obtain ⟨hs, htail⟩ := List.pairwise_cons.1 hrest
      rw [override]
      split
      · rename_i hsame
        -- the new record stands where the old one stood
        refine List.pairwise_cons.2 ⟨fun a ha => ?_, htail⟩
        have hsa := hs a ha
        rwa [Precedes, hsame.1, hsame.2] at hsa
      · rename_i hother
        have hrs : Precedes r s := .of_inOrder (hmem s List.mem_cons_self) hother
        exact List.pairwise_cons.2
          ⟨List.forall_mem_cons.2 ⟨hrs, fun a ha => hrs.trans (hs a ha)⟩, hrest⟩

/-- There is one record for each instant and address, and they are in order. -/
theorem pairwise_latest (records : List PositionRecord) : (latest records).Pairwise Precedes :=
  pairwise_foldr_override (List.pairwise_mergeSort inOrder_trans inOrder_total _)

/-- It is the one that was recorded last. -/
theorem find?_latest (records : List PositionRecord) (time : Instant) (id : Address) :
    (latest records).find? (isOf time id) = records.reverse.find? (isOf time id) := by
  rw [latest, find?_foldr_override, find?_mergeSort]

theorem find?_of_mem {l : List PositionRecord} (h : l.Pairwise Precedes) (hr : r ∈ l) :
    l.find? (isOf r.time r.id) = some r := by
  induction h with
  | nil => exact absurd hr List.not_mem_nil
  | cons hs _ ih =>
    rcases List.mem_cons.1 hr with rfl | hr
    · exact List.find?_cons_of_pos (isOf_self r)
    · rw [List.find?_cons_of_neg (hs r hr).not_isOf, ih hr]

theorem mem_latest_iff :
    r ∈ latest records ↔ lastPosition? records r.time r.id = some r.position := by
  rw [lastPosition?, ← find?_latest]
  constructor
  · intro h
    rw [find?_of_mem (pairwise_latest records) h]
    rfl
  · intro h
    obtain ⟨s, hs, hposition⟩ := Option.map_eq_some_iff.1 h
    have heq : s = r := by rw [eq_of_isOf (List.find?_some hs), hposition]
    exact heq ▸ List.mem_of_find?_eq_some hs

/-- The records that count follow from the positions that count. -/
theorem latest_congr
    (h : ∀ time id, lastPosition? records time id = lastPosition? records' time id) :
    latest records = latest records' := by
  have hnodup : ∀ l, (latest l).Nodup := fun l => (pairwise_latest l).imp Precedes.ne
  have hperm : (latest records).Perm (latest records') :=
    (List.perm_ext_iff_of_nodup (hnodup _) (hnodup _)).2 fun r => by
      rw [mem_latest_iff, mem_latest_iff, h]
  exact eq_of_perm hperm ((pairwise_latest _).imp Precedes.inOrder) (pairwise_latest _)

/-! ## Frames -/

theorem flatMap_records_enter (r : PositionRecord) (fs : List Frame) :
    (enter r fs).flatMap Frame.records = r :: fs.flatMap Frame.records := by
  cases fs with
  | nil => rfl
  | cons f fs =>
    rw [enter]
    split
    · rename_i h
      rw [List.flatMap_cons, List.flatMap_cons, ← List.cons_append]
      congr 1
      rw [Frame.records, Frame.records, List.map_cons, h]
    · rfl

theorem flatMap_records_foldr_enter (l : List PositionRecord) :
    (l.foldr enter []).flatMap Frame.records = l := by
  induction l with
  | nil => rfl
  | cons r l ih => rw [List.foldr_cons, flatMap_records_enter, ih]

/-- The frames hold the records that count. -/
theorem flatMap_records_frames (records : List PositionRecord) :
    (frames records).flatMap Frame.records = latest records :=
  flatMap_records_foldr_enter _

theorem Sequence.enter (h : Sequence fs) (hr : ∀ s ∈ fs.flatMap Frame.records, Precedes r s) :
    Sequence (Formation.enter r fs) := by
  cases fs with
  | nil =>
    exact ⟨List.pairwise_singleton _ _, by simp [Formation.enter], by simp [Formation.enter]⟩
  | cons f fs =>
    have hlater : ∀ p ∈ f.positions, Precedes r ⟨f.time, p.1, p.2⟩ := fun p hp =>
      hr _ (List.mem_flatMap.2 ⟨f, List.mem_cons_self, List.mem_map_of_mem hp⟩)
    obtain ⟨hf, htimes⟩ := List.pairwise_cons.1 h.times
    rw [Formation.enter]
    split
    · rename_i hsame
      have hids : ∀ p ∈ f.positions, r.id.raw < p.1.raw := fun p hp =>
        ((hlater p hp).resolve_left (by rw [hsame]; exact Nat.lt_irrefl _)).2
      refine ⟨List.pairwise_cons.2 ⟨hf, htimes⟩, ?_, ?_⟩
      · exact List.forall_mem_cons.2 ⟨List.cons_ne_nil _ _, h.tail.filled⟩
      · exact List.forall_mem_cons.2
          ⟨List.pairwise_cons.2 ⟨hids, h.ids f List.mem_cons_self⟩, h.tail.ids⟩
    · rename_i hother
      obtain ⟨p, hp⟩ := List.exists_mem_of_ne_nil _ (h.filled f List.mem_cons_self)
      have hlt : r.time < f.time :=
        (hlater p hp).resolve_right fun hsame => hother hsame.1.symm
      refine ⟨List.pairwise_cons.2 ⟨?_, h.times⟩, ?_, ?_⟩
      · exact List.forall_mem_cons.2 ⟨hlt, fun g hg => Nat.lt_trans hlt (hf g hg)⟩
      · exact List.forall_mem_cons.2 ⟨List.cons_ne_nil _ _, h.filled⟩
      · exact List.forall_mem_cons.2 ⟨List.pairwise_singleton _ _, h.ids⟩

theorem sequence_foldr_enter {l : List PositionRecord} (h : l.Pairwise Precedes) :
    Sequence (l.foldr enter []) := by
  induction h with
  | nil => exact ⟨.nil, nofun, nofun⟩
  | @cons r l hr _ ih => exact ih.enter ((flatMap_records_foldr_enter l).symm ▸ hr)

/-- Whatever order the records came in, the frames follow each other in time, and each is in order
of address. -/
theorem sequence_frames (records : List PositionRecord) : Sequence (frames records) :=
  sequence_foldr_enter (pairwise_latest records)

theorem Sequence.eq_of_time {g : Frame} (h : Sequence fs) (hf : f ∈ fs) (hg : g ∈ fs)
    (htime : f.time = g.time) : f = g := by
  have hnodup : (fs.map Frame.time).Nodup :=
    List.pairwise_map.2 (h.times.imp fun hlt => mt (congrArg Duration.nanos) (Nat.ne_of_lt hlt))
  exact List.inj_on_of_nodup_map hnodup hf hg htime

/-- There is a frame for every instant that something was recorded at. -/
theorem exists_mem_frames_iff :
    (∃ f ∈ frames records, f.time = time) ↔ ∃ r ∈ records, r.time = time := by
  constructor
  · rintro ⟨f, hf, rfl⟩
    obtain ⟨p, hp⟩ := List.exists_mem_of_ne_nil _ ((sequence_frames records).filled f hf)
    have hmem : ⟨f.time, p.1, p.2⟩ ∈ latest records :=
      flatMap_records_frames records ▸ List.mem_flatMap.2 ⟨f, hf, List.mem_map_of_mem hp⟩
    have hsome := Option.isSome_of_eq_some (mem_latest_iff.1 hmem)
    obtain ⟨r, hr, htime, -⟩ := isSome_lastPosition?_iff.1 hsome
    exact ⟨r, hr, htime⟩
  · rintro ⟨r, hr, rfl⟩
    obtain ⟨p, hp⟩ := Option.isSome_iff_exists.1
      (isSome_lastPosition?_iff.2 ⟨r, hr, rfl, rfl⟩)
    have hmem : ⟨r.time, r.id, p⟩ ∈ (frames records).flatMap Frame.records := by
      rw [flatMap_records_frames]
      exact mem_latest_iff.2 hp
    obtain ⟨f, hf, hrf⟩ := List.mem_flatMap.1 hmem
    exact ⟨f, hf, (mem_records.1 hrf).1.symm⟩

theorem Frame.get?_eq_some_iff (hids : f.positions.Pairwise (·.1.raw < ·.1.raw)) :
    f.get? id = some p ↔ (id, p) ∈ f.positions := by
  rw [Frame.get?]
  generalize f.positions = l at hids
  induction hids with
  | nil => simp
  | @cons q l hq _ ih =>
    by_cases h : q.1 = id
    · have hnotin : (id, p) ∉ l := fun hp => absurd (hq _ hp) (h ▸ UInt32.lt_irrefl _)
      rw [List.find?_cons_of_pos (by simpa using h), List.mem_cons, or_iff_left hnotin]
      obtain ⟨id', p'⟩ := q
      cases h
      simp [eq_comm]
    · rw [List.find?_cons_of_neg (by simpa using h), ih, List.mem_cons, or_iff_right]
      exact fun heq => h (congrArg Prod.fst heq).symm

/-- A frame holds the positions that count at its instant. -/
theorem get?_of_mem_frames (hf : f ∈ frames records) (id : Address) :
    f.get? id = lastPosition? records f.time id := by
  have hseq := sequence_frames records
  refine Option.ext fun p => ?_
  rw [Frame.get?_eq_some_iff (hseq.ids f hf), ← mem_latest_iff (r := ⟨f.time, id, p⟩),
    ← flatMap_records_frames, List.mem_flatMap]
  constructor
  · exact fun hp => ⟨f, hf, mem_records.2 ⟨rfl, hp⟩⟩
  · rintro ⟨g, hg, hr⟩
    obtain ⟨htime, hp⟩ := mem_records.1 hr
    exact hseq.eq_of_time hf hg htime ▸ hp

end Formation

end SwarmFlight
