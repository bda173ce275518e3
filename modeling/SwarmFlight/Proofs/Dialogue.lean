import Mathlib.Data.List.Basic

/-!
# Requests and answers

Things that serve requests, such as registries and networks, are asked one request after the
other. `calls` are the requests with the answers they get, in order, and `after` is what is
left of the thing. What holds of a new thing of which nothing has been asked, and goes on
holding with each further call, holds after any requests (`calls_induction`).
-/

namespace SwarmFlight

/-- A request and the answer to it. -/
structure Call (ρ α : Type) where
  request : ρ
  answer : α

variable {σ ρ α : Type} (serve : σ → ρ → α × σ)

/-- Some requests with their answers. -/
def calls : σ → List ρ → List (Call ρ α)
  | _, [] => []
  | s, r :: rest => ⟨r, (serve s r).1⟩ :: calls (serve s r).2 rest

/-- What some requests leave. -/
def after (s : σ) (requests : List ρ) : σ := requests.foldl (fun s r => (serve s r).2) s

variable {serve}

theorem calls_append_induction {P : List (Call ρ α) → σ → Prop}
    (step : ∀ log s r, P log s → P (log ++ [⟨r, (serve s r).1⟩]) (serve s r).2)
    {log : List (Call ρ α)} {s : σ} (h : P log s) (requests : List ρ) :
    P (log ++ calls serve s requests) (after serve s requests) := by
  induction requests generalizing log s with
  | nil => simpa [calls, after] using h
  | cons r rest ih => simpa [calls, after] using ih (step log s r h)

/-- What each call keeps holds after all of them. -/
theorem calls_induction {P : List (Call ρ α) → σ → Prop} {s : σ} (first : P [] s)
    (step : ∀ log s r, P log s → P (log ++ [⟨r, (serve s r).1⟩]) (serve s r).2)
    (requests : List ρ) : P (calls serve s requests) (after serve s requests) :=
  calls_append_induction step first requests

/-- What is left is the same thing if each request keeps it. -/
theorem after_induction {P : σ → Prop} {s : σ} (first : P s)
    (step : ∀ s r, P s → P (serve s r).2) (requests : List ρ) : P (after serve s requests) :=
  calls_induction (P := fun _ => P) first (fun _ => step) requests

end SwarmFlight
