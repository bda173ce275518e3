import SwarmFlight.Placement
import SwarmFlight.Proofs.Number.Opposite

/-!
# The points of a placement

A generator and a radius that can be used (`IsUsable`) give candidates without end (`candidates`).
Those strictly inside the sphere, each point once, are the points to choose from (`sieve`), and a
placement takes the first ones of them in their order (`Places`), as many as are asked for. It is
refused exactly if the radius cannot be used, whatever the generator is and without a change to it,
and otherwise ends as soon as the candidates have enough points (`scatter_places`).

So a placement of more points starts with the points of a placement of fewer ones
(`scatter_of_le`).
-/

namespace SwarmFlight

namespace Placement

/-- The first `n` candidates that a generator gives, and the generator after them. -/
def candidates (radius : Float) : Nat → Generator → List Vec3 × Generator
  | 0, g => ([], g)
  | n + 1, g =>
    match candidate? radius g with
    | none => ([], g)
    | some (c, g) => (c :: (candidates radius n g).1, (candidates radius n g).2)

/-- The candidates strictly inside the sphere, each point once. -/
def sieve (radius : Float) (cs : List Vec3) : List Vec3 :=
  (cs.filter (·.length < radius)).eraseDups

/-- Points strictly inside the sphere, no two of them equal. -/
structure Spread (radius : Float) (points : List Vec3) : Prop where
  distinct : points.Pairwise (· != ·)
  inside : ∀ p ∈ points, p.length < radius

/-- A placement of `count` points : the candidates that were looked at are `count` and those
rejected, and the points are the first ones that are left of these and of any further ones. -/
structure Places (radius : Float) (count : Nat) (g : Generator) (s : Scatter) : Prop where
  generator_eq : s.generator = (candidates radius (count + s.rejected) g).2
  points_eq : s.points = sieve radius (candidates radius (count + s.rejected) g).1
  first : ∀ n, count + s.rejected ≤ n →
    (candidates radius n g).1.length = n ∧
      s.points = (sieve radius (candidates radius n g).1).take count
  length_eq : s.points.length = count
  spread : Spread radius s.points

/-- Whether followers can be placed within a radius. -/
def IsUsable (radius : Float) : Prop :=
  radius.isFinite ∧ ¬ radius ≤ 0.0 ∧ ¬ radius > maxSpawnRadius

/-- Take up a candidate, the newest point first. -/
def keep (radius : Float) (kept : List Vec3) (c : Vec3) : List Vec3 :=
  if accepts radius kept c then c :: kept else kept

variable {radius : Float} {g g' : Generator} {c : Vec3} {cs cs' kept : List Vec3}
  {s t : Scatter} {m n count bound missing : Nat} {h : Halt} {e : Halt × Generator}

/-! ## Radii -/

theorem checkRadius_eq_ok_iff : checkRadius radius = .ok () ↔ IsUsable radius := by
  rw [checkRadius, IsUsable]
  by_cases hfinite : radius.isFinite <;> by_cases hsign : radius ≤ 0.0 <;>
    by_cases hsize : radius > maxSpawnRadius <;> simp [hfinite, hsign, hsize]

theorem IsUsable.isPositive (h : IsUsable radius) : Number.IsPositive 969 radius :=
  .of_not_lt h.1 h.2.1 h.2.2 ⟨1000000 * 2 ^ 33, -33, by decide, by rfl, by decide⟩

/-- From a radius that can be used a number can be drawn. -/
theorem IsUsable.isSome_range? (h : IsUsable radius) (g : Generator) :
    (g.range? (-radius) radius).isSome := by
  have hpos := h.isPositive
  have hgood : -radius < radius && (-radius).isFinite && radius.isFinite &&
      (radius - -radius).isFinite := by
    rw [hpos.isFinite_neg, h.1, hpos.isFinite_sub_neg, decide_eq_true hpos.neg_lt]
    rfl
  rw [Generator.range?]
  by_cases hempty : -radius ≥ radius
  · rw [if_pos hempty]
    rfl
  · rw [if_neg hempty, if_pos hgood]
    rfl

theorem IsUsable.exists_candidate? (h : IsUsable radius) (g : Generator) :
    ∃ c g', candidate? radius g = some (c, g') := by
  obtain ⟨⟨x, g₁⟩, hx⟩ := Option.isSome_iff_exists.1 (h.isSome_range? g)
  obtain ⟨⟨y, g₂⟩, hy⟩ := Option.isSome_iff_exists.1 (h.isSome_range? g₁)
  obtain ⟨⟨z, g₃⟩, hz⟩ := Option.isSome_iff_exists.1 (h.isSome_range? g₂)
  refine ⟨⟨x, y, z⟩, g₃, ?_⟩
  rw [candidate?]
  simp only [hx, hy, hz, Option.bind_eq_bind, Option.bind_some]
  rfl

/-! ## Candidates -/

theorem candidates_succ (h : candidate? radius g = some (c, g')) (n : Nat) :
    candidates radius (n + 1) g =
      (c :: (candidates radius n g').1, (candidates radius n g').2) := by
  rw [candidates, h]

theorem IsUsable.length_candidates (h : IsUsable radius) (n : Nat) (g : Generator) :
    (candidates radius n g).1.length = n := by
  induction n generalizing g with
  | zero => rfl
  | succ n ih =>
    obtain ⟨c, g', hc⟩ := h.exists_candidate? g
    rw [candidates_succ hc, List.length_cons, ih]

theorem candidates_prefix (hle : m ≤ n) :
    (candidates radius m g).1 <+: (candidates radius n g).1 := by
  induction m generalizing g n with
  | zero => exact List.nil_prefix
  | succ m ih =>
    obtain ⟨n, rfl⟩ := Nat.exists_eq_add_of_lt hle
    cases hc : candidate? radius g with
    | none => simp [candidates, hc]
    | some p =>
      rw [candidates_succ hc, candidates_succ hc]
      exact List.prefix_cons_inj _ |>.2 (ih (by omega))

/-! ## The sieve -/

theorem loop_filter (cs kept : List Vec3) :
    List.eraseDupsBy.loop (· == ·) (cs.filter (·.length < radius)) kept =
      (cs.foldl (keep radius) kept).reverse := by
  induction cs generalizing kept with
  | nil => rfl
  | cons c cs ih =>
    rw [List.foldl_cons, keep, accepts, List.contains_eq_any_beq]
    by_cases hc : c.length < radius
    · rw [List.filter_cons_of_pos (by simpa using hc), List.eraseDupsBy.loop]
      cases hany : kept.any (c == ·) <;> simp [hc, ih]
    · rw [List.filter_cons_of_neg (by simpa using hc)]
      simp [hc, ih]

/-- The points are kept one by one. -/
theorem sieve_eq (cs : List Vec3) : sieve radius cs = (cs.foldl (keep radius) []).reverse :=
  loop_filter cs []

theorem suffix_foldl_keep (cs kept : List Vec3) : kept <:+ cs.foldl (keep radius) kept := by
  induction cs generalizing kept with
  | nil => exact List.suffix_refl _
  | cons c cs ih =>
    refine List.IsSuffix.trans ?_ (ih (keep radius kept c))
    rw [keep]
    split
    · exact List.suffix_cons _ _
    · exact List.suffix_refl _

/-- More candidates change no point that is there. -/
theorem sieve_prefix (h : cs <+: cs') : sieve radius cs <+: sieve radius cs' := by
  obtain ⟨more, rfl⟩ := h
  rw [sieve_eq, sieve_eq, List.foldl_append]
  exact List.reverse_prefix.2 (suffix_foldl_keep _ _)

theorem Spread.keep (h : Spread radius kept) (c : Vec3) :
    Spread radius (Placement.keep radius kept c) := by
  rw [Placement.keep]
  split
  · rename_i hc
    rw [accepts, List.contains_eq_any_beq] at hc
    simp only [Bool.and_eq_true, decide_eq_true_eq, Bool.not_eq_true', List.any_eq_false] at hc
    refine ⟨List.pairwise_cons.2 ⟨fun p hp => ?_, h.distinct⟩,
      List.forall_mem_cons.2 ⟨hc.1, h.inside⟩⟩
    simpa [bne] using hc.2 p hp
  · exact h

theorem Spread.foldl_keep (h : Spread radius kept) (cs : List Vec3) :
    Spread radius (cs.foldl (Placement.keep radius) kept) := by
  induction cs generalizing kept with
  | nil => exact h
  | cons c cs ih => exact ih (h.keep c)

theorem Spread.reverse (h : Spread radius kept) : Spread radius kept.reverse := by
  refine ⟨List.pairwise_reverse.2 (h.distinct.imp fun {a b} hne => ?_),
    fun p hp => h.inside p (List.mem_reverse.1 hp)⟩
  rw [bne, Bool.not_eq_true'] at hne ⊢
  exact Bool.eq_false_iff.2 fun heq => Bool.eq_false_iff.1 hne (Vec3.beq_symm heq)

/-- Whatever the candidates are, those that are left are spread. -/
theorem spread_sieve (cs : List Vec3) : Spread radius (sieve radius cs) := by
  rw [sieve_eq]
  exact (Spread.foldl_keep ⟨.nil, nofun⟩ cs).reverse

/-! ## Placements -/

theorem Scatter.fill_succ (hc : candidate? radius s.generator = some (c, g)) :
    Scatter.fill radius (bound + 1) (missing + 1) s =
      if accepts radius s.kept c then
        Scatter.fill radius bound missing { s with kept := c :: s.kept, generator := g }
      else
        Scatter.fill radius bound (missing + 1)
          { s with rejected := s.rejected + 1, generator := g } := by
  rw [Scatter.fill, hc]

/-- A call that ends with the points has taken up some candidates, and none after the last one that
it needed. -/
theorem Scatter.fill_eq_ok (hfill : Scatter.fill radius bound missing s = .ok t) :
    ∃ n, n + s.rejected = missing + t.rejected ∧
      t.generator = (candidates radius n s.generator).2 ∧
      t.kept = (candidates radius n s.generator).1.foldl (keep radius) s.kept ∧
      t.kept.length = s.kept.length + missing := by
  fun_induction Scatter.fill radius bound missing s with
  | case1 bound s =>
    cases hfill
    exact ⟨0, rfl, rfl, rfl, rfl⟩
  | case2 => cases hfill
  | case3 => cases hfill
  | case4 bound missing s c g hc haccepts ih =>
    obtain ⟨n, hrejected, hgenerator, hkept, hlength⟩ := ih hfill
    refine ⟨n + 1, ?_, ?_, ?_, ?_⟩
    · simp only at hrejected
      omega
    · rw [candidates_succ hc, hgenerator]
    · rw [candidates_succ hc, List.foldl_cons, keep, if_pos haccepts, hkept]
    · rw [hlength, List.length_cons]
      omega
  | case5 bound missing s c g hc haccepts ih =>
    obtain ⟨n, hrejected, hgenerator, hkept, hlength⟩ := ih hfill
    refine ⟨n + 1, ?_, ?_, ?_, hlength⟩
    · simp only at hrejected
      omega
    · rw [candidates_succ hc, hgenerator]
    · rw [candidates_succ hc, List.foldl_cons, keep, if_neg haccepts, hkept]

/-- A call with a radius that can be used fails only if all the candidates it may look at are too
few. -/
theorem Scatter.fill_eq_error (husable : IsUsable radius)
    (hfill : Scatter.fill radius bound missing s = .error e) :
    e.1 = .unfinished ∧
      ((candidates radius bound s.generator).1.foldl (keep radius) s.kept).length <
        s.kept.length + missing := by
  fun_induction Scatter.fill radius bound missing s with
  | case1 => cases hfill
  | case2 missing s =>
    cases hfill
    exact ⟨rfl, Nat.lt_add_of_pos_right (Nat.succ_pos missing)⟩
  | case3 bound missing s hnone =>
    obtain ⟨c, g', hc⟩ := husable.exists_candidate? s.generator
    rw [hc] at hnone
    cases hnone
  | case4 bound missing s c g hc haccepts ih =>
    obtain ⟨hend, hlt⟩ := ih hfill
    rw [candidates_succ hc, List.foldl_cons, keep, if_pos haccepts]
    refine ⟨hend, hlt.trans_eq ?_⟩
    rw [List.length_cons]
    omega
  | case5 bound missing s c g hc haccepts ih =>
    rw [candidates_succ hc, List.foldl_cons, keep, if_neg haccepts]
    exact ih hfill

/-- No point is given up. -/
theorem Scatter.fill_suffix (hfill : Scatter.fill radius bound missing s = .ok t) :
    s.kept <:+ t.kept := by
  obtain ⟨n, -, -, hkept, -⟩ := fill_eq_ok hfill
  rw [hkept]
  exact suffix_foldl_keep _ _

/-- A call for fewer points ends sooner, with those that come first. -/
theorem Scatter.fill_of_le (hfill : Scatter.fill radius bound n s = .ok t) (hle : m ≤ n) :
    ∃ t', Scatter.fill radius bound m s = .ok t' ∧ t'.kept <:+ t.kept := by
  fun_induction Scatter.fill radius bound n s generalizing m with
  | case1 bound s =>
    obtain rfl := Nat.le_zero.1 hle
    exact ⟨t, hfill ▸ by rw [Scatter.fill], List.suffix_refl _⟩
  | case2 => cases hfill
  | case3 => cases hfill
  | case4 bound missing s c g hc haccepts ih =>
    cases m with
    | zero => exact ⟨s, by rw [Scatter.fill], (List.suffix_cons _ _).trans (fill_suffix hfill)⟩
    | succ m =>
      obtain ⟨t', ht', hsuffix⟩ := ih hfill (Nat.le_of_succ_le_succ hle)
      exact ⟨t', by rw [fill_succ hc, if_pos haccepts, ht'], hsuffix⟩
  | case5 bound missing s c g hc haccepts ih =>
    cases m with
    | zero =>
      have hsuffix := fill_suffix hfill
      exact ⟨s, by rw [Scatter.fill], hsuffix⟩
    | succ m =>
      obtain ⟨t', ht', hsuffix⟩ := ih hfill hle
      exact ⟨t', by rw [fill_succ hc, if_neg haccepts, ht'], hsuffix⟩

theorem draw_of_usable (h : IsUsable radius) (g : Generator) (count : Nat) :
    draw g radius count = Scatter.fill radius candidateLimit count ⟨[], 0, g⟩ := by
  rw [draw, checkRadius_eq_ok_iff.2 h]

/-- A radius that cannot be used is refused for any generator, which is left as it is. -/
theorem draw_of_not_usable (h : ¬ IsUsable radius) :
    ∃ f, ∀ g count, draw g radius count = .error (.failure f, g) := by
  cases hcheck : checkRadius radius with
  | error c => exact ⟨.badSetting c, fun g count => by rw [draw, hcheck]⟩
  | ok => exact absurd (checkRadius_eq_ok_iff.1 hcheck) h

theorem scatter_eq_ok_iff : scatter g radius count = .ok s ↔ draw g radius count = .ok s := by
  rw [scatter]
  cases draw g radius count <;> simp [Except.mapError]

theorem scatter_eq_error_iff :
    scatter g radius count = .error h ↔ ∃ g', draw g radius count = .error (h, g') := by
  rw [scatter]
  cases draw g radius count <;> simp [Except.mapError, Prod.ext_iff]

theorem scatter_of_not_usable (h : ¬ IsUsable radius) :
    ∃ f, ∀ g count, scatter g radius count = .error (.failure f) := by
  obtain ⟨f, hf⟩ := draw_of_not_usable h
  exact ⟨f, fun g count => scatter_eq_error_iff.2 ⟨g, hf g count⟩⟩

theorem usable_of_scatter (hs : scatter g radius count = .ok s) : IsUsable radius := by
  by_contra h
  obtain ⟨f, hf⟩ := scatter_of_not_usable h
  rw [hf] at hs
  cases hs

theorem scatter_eq_error (husable : IsUsable radius) (hs : scatter g radius count = .error h) :
    h = .unfinished ∧ (sieve radius (candidates radius candidateLimit g).1).length < count := by
  obtain ⟨g', hdraw⟩ := scatter_eq_error_iff.1 hs
  rw [draw_of_usable husable] at hdraw
  obtain ⟨hend, hlt⟩ := Scatter.fill_eq_error husable hdraw
  rw [sieve_eq, List.length_reverse]
  exact ⟨hend, hlt.trans_eq (Nat.zero_add _)⟩

theorem places_of_scatter (hs : scatter g radius count = .ok s) : Places radius count g s := by
  have husable := usable_of_scatter hs
  rw [scatter_eq_ok_iff, draw_of_usable husable] at hs
  obtain ⟨n, hrejected, hgenerator, hkept, hlength⟩ := Scatter.fill_eq_ok hs
  obtain rfl : n = count + s.rejected := hrejected
  have hpoints : s.points = sieve radius (candidates radius (count + s.rejected) g).1 := by
    rw [sieve_eq, Scatter.points, hkept]
  have hcount : s.points.length = count := by
    rw [Scatter.points, List.length_reverse, hlength]
    exact Nat.zero_add _
  refine ⟨hgenerator, hpoints, fun n hn => ⟨husable.length_candidates n g, ?_⟩, hcount,
    hpoints ▸ spread_sieve _⟩
  have hmore : (candidates radius (count + s.rejected) g).1 <+: (candidates radius n g).1 :=
    candidates_prefix hn
  have hprefix : sieve radius _ <+: sieve radius _ := sieve_prefix hmore
  rw [← hpoints, List.prefix_iff_eq_take, hcount] at hprefix
  exact hprefix

theorem scatter_of_le (hs : scatter g radius n = .ok s) (hle : m ≤ n) :
    ∃ s', scatter g radius m = .ok s' ∧ s'.points <+: s.points := by
  have husable := usable_of_scatter hs
  rw [scatter_eq_ok_iff, draw_of_usable husable] at hs
  obtain ⟨s', hs', hsuffix⟩ := Scatter.fill_of_le hs hle
  refine ⟨s', ?_, List.reverse_prefix.2 hsuffix⟩
  rw [scatter_eq_ok_iff, draw_of_usable husable, hs']

/-- More followers move none of those that are there. -/
theorem initialLayout_of_le {seed : UInt64} {layout : List Vec3}
    (hlayout : initialLayout seed radius n = .ok (layout, s)) (hle : m ≤ n) :
    ∃ layout' s', initialLayout seed radius m = .ok (layout', s') ∧ layout' <+: layout ∧
      layout'.head? = some Vec3.zero := by
  cases hs : scatter (Generator.ofSeed seed) radius n with
  | error h =>
    rw [initialLayout, hs] at hlayout
    cases hlayout
  | ok s₀ =>
    rw [initialLayout, hs] at hlayout
    cases hlayout
    obtain ⟨s', hs', hprefix⟩ := scatter_of_le hs hle
    refine ⟨Vec3.zero :: s'.points, s', ?_, List.prefix_cons_inj _ |>.2 hprefix, rfl⟩
    rw [initialLayout, hs']
    rfl

/-- A placement has the first points of the sieved candidates, in their order. It is refused exactly
for a radius that cannot be used, with the generator as it was, and otherwise goes on until there
are enough points. With the same seed, a layout for fewer followers is the beginning of one for more. -/
theorem scatter_places (radius : Float) :
    (∀ g count s, scatter g radius count = .ok s → Places radius count g s) ∧
    (∀ g count, (∃ f, scatter g radius count = .error (.failure f)) ↔
      ¬ radius.isFinite ∨ radius ≤ 0.0 ∨ radius > maxSpawnRadius) ∧
    (∀ g count f, scatter g radius count = .error (.failure f) →
      ∀ g' count', draw g' radius count' = .error (.failure f, g') ∧
        scatter g' radius count' = .error (.failure f)) ∧
    (∀ g count h, scatter g radius count = .error h → (∃ f, h = .failure f) ∨
      h = .unfinished ∧ (sieve radius (candidates radius candidateLimit g).1).length < count) ∧
    ∀ seed m n layout s, m ≤ n → initialLayout seed radius n = .ok (layout, s) →
      ∃ layout' s', initialLayout seed radius m = .ok (layout', s') ∧ layout' <+: layout ∧
        layout'.head? = some Vec3.zero := by
  have hbad : ¬ IsUsable radius ↔
      ¬ radius.isFinite ∨ radius ≤ 0.0 ∨ radius > maxSpawnRadius := by
    rw [IsUsable]
    tauto
  have hnever : ∀ g count f, scatter g radius count = .error (.failure f) → ¬ IsUsable radius :=
    fun g count f hs husable => nomatch (scatter_eq_error husable hs).1
  refine ⟨fun _ _ _ => places_of_scatter, fun g count => ⟨?_, ?_⟩, fun g count f hs g' count' => ?_,
    fun g count h hs => ?_, fun _ _ _ _ _ hle h => initialLayout_of_le h hle⟩
  · rintro ⟨f, hs⟩
    exact hbad.1 (hnever g count f hs)
  · intro h
    obtain ⟨f, hf⟩ := scatter_of_not_usable (hbad.2 h)
    exact ⟨f, hf g count⟩
  · obtain ⟨f', hf'⟩ := draw_of_not_usable (hnever g count f hs)
    obtain ⟨_, hdraw⟩ := scatter_eq_error_iff.1 hs
    rw [hf'] at hdraw
    cases hdraw
    exact ⟨hf' g' count', scatter_eq_error_iff.2 ⟨g', hf' g' count'⟩⟩
  · by_cases husable : IsUsable radius
    · exact .inr (scatter_eq_error husable hs)
    · obtain ⟨f, hf⟩ := scatter_of_not_usable husable
      rw [hf] at hs
      cases hs
      exact .inl ⟨f, rfl⟩

/-- A generator with the words of four candidates left : twice the origin, a corner of the cube and
a point halfway to its face. -/
def fourLeft : Generator :=
  ⟨.replicate 8 0, 0, [0x8000000000000000, 0x8000000000000000, 0x8000000000000000,
    0x8000000000000000, 0x8000000000000000, 0x8000000000000000, 0, 0, 0,
    0xc000000000000000, 0x8000000000000000, 0x8000000000000000]⟩

theorem scatter_places_fourLeft :
    (∃ s, scatter fourLeft 1.0 2 = .ok s ∧ s.rejected = 2 ∧ Places 1.0 2 fourLeft s) ∧
      ∃ layout s, initialLayout 7 1.0 1 = .ok (layout, s) ∧ layout.head? = some Vec3.zero := by
  obtain ⟨hplaces, -, -, -, hlayout⟩ := scatter_places 1.0
  constructor
  · have hrejected : (scatter fourLeft 1.0 2).toOption.map Scatter.rejected = some 2 := by
      decide +kernel
    obtain ⟨s, hs, hrejected⟩ := Option.map_eq_some_iff.1 hrejected
    cases hresult : scatter fourLeft 1.0 2 with
    | error h =>
      rw [hresult] at hs
      cases hs
    | ok s' =>
      rw [hresult] at hs
      cases hs
      exact ⟨s, rfl, hrejected, hplaces _ _ _ hresult⟩
  · have hsome : (initialLayout 7 1.0 2).toOption.isSome := by decide +kernel
    cases hresult : initialLayout 7 1.0 2 with
    | error h =>
      rw [hresult] at hsome
      cases hsome
    | ok p =>
      obtain ⟨layout', s', hok, -, hhead⟩ := hlayout 7 1 2 p.1 p.2 (by decide) hresult
      exact ⟨layout', s', hok, hhead⟩

end Placement

end SwarmFlight
