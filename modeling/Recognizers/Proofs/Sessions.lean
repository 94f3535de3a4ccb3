import Mathlib.Data.List.Induction

/-!
Sessions: requests made one after another, each of which is answered and leaves a state behind. Two
ways to respond whose states stay related give the same log (`related`).
-/
namespace Recognizers
namespace Session

variable {σ τ κ α : Type}

section

variable (respond : σ → κ → α × σ)

def state (s : σ) (asked : List κ) : σ := asked.foldl (fun s request => (respond s request).2) s

def log (s : σ) : List κ → List (κ × α)
  | [] => []
  | request :: later => (request, (respond s request).1) :: log (respond s request).2 later

variable (s : σ) (asked later : List κ) (request : κ)

theorem state_append :
    state respond s (asked ++ later) = state respond (state respond s asked) later :=
  List.foldl_append

theorem state_concat :
    state respond s (asked ++ [request]) = (respond (state respond s asked) request).2 :=
  state_append respond s asked [request]

theorem log_append : log respond s (asked ++ later) =
    log respond s asked ++ log respond (state respond s asked) later := by
  induction asked generalizing s with
  | nil => rfl
  | cons first rest ih => exact congrArg _ (ih (respond s first).2)

theorem log_concat : log respond s (asked ++ [request]) =
    log respond s asked ++ [(request, (respond (state respond s asked) request).1)] :=
  log_append respond s asked [request]

end

variable {respond : σ → κ → α × σ} {other : τ → κ → α × τ} {s : σ} {t : τ} {asked : List κ}
  {request : κ} {answer : α}

theorem mem_log_iff : (request, answer) ∈ log respond s asked ↔
    ∃ before later, asked = before ++ request :: later ∧
      (respond (state respond s before) request).1 = answer := by
  constructor
  · intro member
    induction asked generalizing s with
    | nil => cases member
    | cons first rest ih =>
      rcases List.mem_cons.mp member with here | after
      · obtain ⟨rfl, rfl⟩ := Prod.mk.inj here
        exact ⟨[], rest, rfl, rfl⟩
      · obtain ⟨before, later, rfl, answered⟩ := ih after
        exact ⟨first :: before, later, rfl, answered⟩
  · rintro ⟨before, later, rfl, rfl⟩
    rw [log_append]
    exact List.mem_append_right _ List.mem_cons_self

theorem asked_of_mem_log (member : (request, answer) ∈ log respond s asked) :
    request ∈ asked := by
  obtain ⟨before, later, rfl, _⟩ := mem_log_iff.mp member
  simp

theorem exists_mem_log (respond : σ → κ → α × σ) (s : σ) (member : request ∈ asked) :
    ∃ answer, (request, answer) ∈ log respond s asked := by
  obtain ⟨before, later, rfl⟩ := List.append_of_mem member
  exact ⟨_, mem_log_iff.mpr ⟨before, later, rfl, rfl⟩⟩

theorem related {R : σ → τ → Prop}
    (step : ∀ {s t} request, R s t →
      (respond s request).1 = (other t request).1 ∧ R (respond s request).2 (other t request).2)
    (start : R s t) :
    log respond s asked = log other t asked ∧ R (state respond s asked) (state other t asked) := by
  induction asked generalizing s t with
  | nil => exact ⟨rfl, start⟩
  | cons first rest ih =>
    obtain ⟨same, next⟩ := step first start
    obtain ⟨logs, states⟩ := ih next
    exact ⟨by rw [log, log, same, logs], states⟩

section

variable {ε β : Type} {e : ε} {attempt : Except ε (α × σ)}

def settle (s : σ) : Except ε (α × σ) → Except ε α × σ
  | .ok (a, next) => (.ok a, next)
  | .error e => (.error e, s)

theorem settle_eq_error_iff : (settle s attempt).1 = .error e ↔ attempt = .error e := by
  cases attempt with
  | ok result => simp [settle]
  | error e => simp [settle]

theorem settle_refused (refused : (settle s attempt).1 = .error e) : (settle s attempt).2 = s := by
  rw [settle_eq_error_iff.mp refused]
  rfl

/-- What is changed in place follows an attempt: it answers alike, goes over into a related state
where the attempt succeeds, and stays as it is where it fails. -/
inductive Follows (R : τ → σ → Prop) (t : τ) : Except ε (α × σ) → Except ε α × τ → Prop where
  | granted {a : α} {next : σ} {u : τ} (kept : R u next) : Follows R t (.ok (a, next)) (.ok a, u)
  | refused {e : ε} : Follows R t (.error e) (.error e, t)

namespace Follows

variable {R : τ → σ → Prop} {reply : Except ε α × τ}

theorem settled (follows : Follows R t attempt reply) (start : R t s) :
    reply.1 = (settle s attempt).1 ∧ R reply.2 (settle s attempt).2 := by
  cases follows with
  | granted kept => exact ⟨rfl, kept⟩
  | refused => exact ⟨rfl, start⟩

theorem unchanged (follows : Follows R t attempt reply)
    (refused : (settle s attempt).1 = .error e) : reply.2 = t := by
  cases follows with
  | granted kept => cases refused
  | refused => rfl

theorem map (follows : Follows R t attempt reply) (f : α → β) :
    Follows R t (attempt.map fun result => (f result.1, result.2)) (reply.1.map f, reply.2) := by
  cases follows with
  | granted kept => exact .granted kept
  | refused => exact .refused

end Follows
end

end Session
end Recognizers
