import SwarmFlight.Failure

/-!
# What comes of a call

A call ends with a value, with a failure, or worse : it breaks down. `Returns` says what is
known of the first two and when the third is excluded. It is proved along the code of a
call, by `Returns.bind` from one part to the next.
-/

namespace SwarmFlight

variable {σ α β : Type} {safe : Prop}

/-- A call that ended with a value or a failure in some state. -/
def returned : Except Failure α → σ → EStateM.Result Halt σ α
  | .ok a, s => .ok a s
  | .error f, s => .error (.failure f) s

theorem returned_inj {r r' : Except Failure α} {s s' : σ}
    (h : returned r s = returned r' s') : r = r' ∧ s = s' := by
  cases r <;> cases r' <;> cases h <;> exact ⟨rfl, rfl⟩

/-- A call returned, and `post` holds of what it returned and the state that it left. It may have
broken down instead, but not if `safe`. -/
def Returns (safe : Prop) (post : Except Failure α → σ → Prop) : EStateM.Result Halt σ α → Prop
  | .ok a s => post (.ok a) s
  | .error (.failure f) s => post (.error f) s
  | .error _ _ => ¬ safe

namespace Returns

variable {post : Except Failure α → σ → Prop} {res : EStateM.Result Halt σ α}

theorem of_returned {r : Except Failure α} {s : σ} (h : Returns safe post (returned r s)) :
    post r s := by
  cases r <;> exact h

/-- A safe call returns. -/
theorem exists_returned (h : Returns safe post res) (hs : safe) :
    ∃ r s, res = returned r s ∧ post r s := by
  cases res with
  | ok a s => exact ⟨.ok a, s, rfl, h⟩
  | error e s =>
    cases e with
    | failure f => exact ⟨.error f, s, rfl, h⟩
    | _ => exact absurd hs h

theorem mono {post' : Except Failure α → σ → Prop} (h : Returns safe post res)
    (himp : ∀ r s, post r s → post' r s) : Returns safe post' res := by
  cases res with
  | ok a s => exact himp _ _ h
  | error e s =>
    cases e with
    | failure f => exact himp _ _ h
    | _ => exact h

/-- One part of a call after the other. -/
theorem bind {x : EStateM Halt σ α} {f : α → EStateM Halt σ β} {s : σ}
    {post' : Except Failure β → σ → Prop} (hx : Returns safe post (x s))
    (hok : ∀ a s', post (.ok a) s' → Returns safe post' (f a s'))
    (herror : ∀ e s', post (.error e) s' → post' (.error e) s') :
    Returns safe post' ((x >>= f) s) := by
  show Returns safe post' (EStateM.bind x f s)
  unfold EStateM.bind
  cases hres : x s with
  | ok a s' =>
    rw [hres] at hx
    exact hok a s' hx
  | error e s' =>
    rw [hres] at hx
    cases e with
    | failure g => exact herror g s' hx
    | _ => exact hx

/-- A call whose value is of no interest. -/
theorem of_discard {x : EStateM Halt σ α} {s : σ} {post' : Except Failure Unit → σ → Prop}
    (h : Returns safe post (x s)) (himp : ∀ r s', post r s' → post' (r.map fun _ => ()) s') :
    Returns safe post' ((discard x : EStateM Halt σ Unit) s) := by
  show Returns safe post' (EStateM.map (fun _ => ()) x s)
  unfold EStateM.map
  cases hres : x s with
  | ok a s' =>
    rw [hres] at h
    exact himp _ _ h
  | error e s' =>
    rw [hres] at h
    cases e with
    | failure f => exact himp _ _ h
    | _ => exact h

end Returns

end SwarmFlight
