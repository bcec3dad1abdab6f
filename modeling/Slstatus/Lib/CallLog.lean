import Mathlib.Data.List.Basic

/-! Logs of calls on a shared store. A log lists the arguments of successive calls
with their results; a projection keeps the calls of one participant and the part of
the store that is its own. -/

namespace CallLog

variable {α β ρ σ τ ε : Type*}

/-- The calls of the log succeed one after the other from the first store to the
second, with the results that stand in the log. -/
inductive Run (step : α → σ → Except ε (ρ × σ)) : σ → List (α × ρ) → σ → Prop
  | nil (s : σ) : Run step s [] s
  | cons {a : α} {r : ρ} {s t u : σ} {log : List (α × ρ)} (hcall : step a s = .ok (r, t))
      (hrest : Run step t log u) : Run step s ((a, r) :: log) u

def replay (step : α → σ → Except ε (ρ × σ)) : List α → σ → List ρ
  | [], _ => []
  | a :: as, s =>
    match step a s with
    | .error _ => []
    | .ok (r, t) => r :: replay step as t

def project (own : α → Option β) (log : List (α × ρ)) : List (β × ρ) :=
  log.filterMap (fun e => (own e.1).map (·, e.2))

variable {step : α → σ → Except ε (ρ × σ)} {alone : β → τ → Except ε (ρ × τ)}

theorem Run.append {s t u : σ} {log log' : List (α × ρ)} (h : Run step s log t)
    (h' : Run step t log' u) : Run step s (log ++ log') u := by
  induction h with
  | nil => exact h'
  | cons hcall _ ih => exact .cons hcall (ih h')

theorem Run.results {s t : σ} {log : List (α × ρ)} (h : Run step s log t) :
    log.map Prod.snd = replay step (log.map Prod.fst) s := by
  induction h with
  | nil => rfl
  | cons hcall _ ih => simp only [List.map_cons, replay, hcall, ih]

theorem replay_map {α' : Type*} (f : α' → α) (as : List α') (s : σ) :
    replay step (as.map f) s = replay (fun a => step (f a)) as s := by
  induction as generalizing s with
  | nil => rfl
  | cons a as ih =>
    simp only [List.map_cons, replay]
    cases step (f a) s with
    | error e => rfl
    | ok r => exact congrArg (r.1 :: ·) (ih r.2)

theorem replay_cons {a : α} {as : List α} {s t : σ} {r : ρ} (h : step a s = .ok (r, t)) :
    replay step (a :: as) s = r :: replay step as t := by
  simp only [replay, h]

/-- The own calls run alone on the own part of the store when each of them does there
what it does on the whole, and the other calls leave that part as it is. -/
theorem Run.project {own : α → Option β} {view : σ → τ} {s t : σ} {log : List (α × ρ)}
    (h : Run step s log t)
    (hown : ∀ a b r s t, own a = some b → step a s = .ok (r, t) →
      alone b (view s) = .ok (r, view t))
    (hother : ∀ a r s t, (a, r) ∈ log → own a = none → step a s = .ok (r, t) → view t = view s) :
    Run alone (view s) (project own log) (view t) := by
  induction h with
  | nil => exact .nil _
  | @cons a r s t u log hcall _ ih =>
    have hrest := ih (fun a r s t hmem => hother a r s t (List.mem_cons_of_mem _ hmem))
    cases ha : own a with
    | none =>
      rw [hother a r s t List.mem_cons_self ha hcall] at hrest
      simpa only [CallLog.project, List.filterMap_cons, ha, Option.map_none] using hrest
    | some b =>
      have hcons := Run.cons (hown a b r s t ha hcall) hrest
      simpa only [CallLog.project, List.filterMap_cons, ha, Option.map_some] using hcons

end CallLog
