import Mathlib

/-! Runs of a state machine whose step may fail, and the trace of a switch.

A step `σ → ι → Except ε (σ × List ο)` takes an input and returns the next state
with the outputs it emitted, or fails (a panic, say). `run` feeds it a list of
inputs and collects the outputs. `run_induction` is the rule for what holds along
a run: a property of the inputs consumed, the outputs emitted so far and the
state, kept by every step, holds at the end of every run that does not fail.
`foldlM_invariant` is that rule for a step that may not be enabled.

`Toggle.follow` follows a switch through a list of on/off events (`true` is on):
every event must flip it, and the result is the position it ends in, or `none`
at the first event that does not. A trace of a switch composes by `bind`
(`follow_append`). `Toggle.final` is the position of a switch that every event
sets; on a trace that `follow` accepts, the two agree (`follow_eq_final`). -/

namespace Machine

variable {σ ι ο ε : Type} (step : σ → ι → Except ε (σ × List ο))

/-- Feed the inputs one by one, collecting the outputs; stop at the first failure. -/
def run : σ → List ι → Except ε (σ × List ο)
  | s, [] => .ok (s, [])
  | s, i :: is =>
    match step s i with
    | .error e => .error e
    | .ok (s₁, o₁) =>
      match run s₁ is with
      | .error e => .error e
      | .ok (s₂, o₂) => .ok (s₂, o₁ ++ o₂)

@[simp] theorem run_nil (s : σ) : run step s [] = .ok (s, []) := rfl

variable {step}

/-- A run that returns took a first step that returned, then the rest of the run. -/
theorem run_cons_eq_ok {s s' : σ} {i : ι} {is : List ι} {o : List ο}
    (h : run step s (i :: is) = .ok (s', o)) :
    ∃ s₁ o₁ o₂, step s i = .ok (s₁, o₁) ∧ run step s₁ is = .ok (s', o₂) ∧ o = o₁ ++ o₂ := by
  simp only [run] at h
  split at h
  · cases h
  · rename_i s₁ o₁ hstep
    split at h
    · cases h
    · rename_i s₂ o₂ hrun
      cases h
      exact ⟨s₁, o₁, o₂, hstep, hrun, rfl⟩

/-- **Induction along a run.** A property of the inputs consumed, the outputs emitted
and the state that every step keeps holds after every run that returns. -/
theorem run_induction (Q : List ι → List ο → σ → Prop)
    (hstep : ∀ done out s i s' o, Q done out s → step s i = .ok (s', o) →
      Q (done ++ [i]) (out ++ o) s')
    {done : List ι} {out : List ο} {s s' : σ} {is : List ι} {o : List ο}
    (h0 : Q done out s) (h : run step s is = .ok (s', o)) : Q (done ++ is) (out ++ o) s' := by
  induction is generalizing done out s o with
  | nil =>
    simp only [run_nil, Except.ok.injEq, Prod.mk.injEq] at h
    obtain ⟨rfl, rfl⟩ := h
    simpa using h0
  | cons i is ih =>
    obtain ⟨s₁, o₁, o₂, hs, hrun, rfl⟩ := run_cons_eq_ok h
    have h1 := hstep done out s i s₁ o₁ h0 hs
    simpa using ih h1 hrun

/-- A property of states alone that every step keeps holds after every run. -/
theorem run_invariant (P : σ → Prop) (hstep : ∀ s i s' o, P s → step s i = .ok (s', o) → P s')
    {s s' : σ} {is : List ι} {o : List ο} (h0 : P s) (h : run step s is = .ok (s', o)) : P s' :=
  @run_induction σ ι ο ε step (fun _ _ s => P s) (fun _ _ s i s' o hP hs => hstep s i s' o hP hs)
    [] [] s s' is o h0 h

/-- The same rule for a step that is either enabled (`some`) or not: a property
that every enabled step keeps holds after every run of enabled steps. -/
theorem foldlM_invariant {α β : Type} {f : α → β → Option α} (P : α → Prop)
    (hstep : ∀ a b a', P a → f a b = some a' → P a') {a a' : α} {bs : List β}
    (h0 : P a) (h : bs.foldlM f a = some a') : P a' := by
  induction bs generalizing a with
  | nil =>
    cases h
    exact h0
  | cons b bs ih =>
    rw [List.foldlM_cons] at h
    obtain ⟨a₁, h₁, hrun⟩ := Option.bind_eq_some_iff.mp h
    exact ih (hstep a b a₁ h0 h₁) hrun

/-- The same rule for a step that may fail, where the step may use that its input
is one of the list: a property that every step keeps holds after every fold that
returns. -/
theorem foldlM_except_invariant {α β ε : Type} {f : α → β → Except ε α} (P : α → Prop)
    {a a' : α} {bs : List β} (hstep : ∀ a b a', b ∈ bs → P a → f a b = .ok a' → P a')
    (h0 : P a) (h : bs.foldlM f a = .ok a') : P a' := by
  induction bs generalizing a with
  | nil =>
    cases h
    exact h0
  | cons b bs ih =>
    rw [List.foldlM_cons] at h
    cases h₁ : f a b with
    | error e =>
      rw [h₁] at h
      cases h
    | ok a₁ =>
      rw [h₁] at h
      have hrest : ∀ a b a', b ∈ bs → P a → f a b = .ok a' → P a' :=
        fun a b a' hb => hstep a b a' (List.mem_cons_of_mem _ hb)
      exact ih hrest (hstep a b a₁ List.mem_cons_self h0 h₁) h

/-- A bind in `Except` that returns ran its first computation to a value. -/
theorem except_bind_eq_ok {α β ε : Type} {x : Except ε α} {f : α → Except ε β} {b : β} :
    x >>= f = .ok b ↔ ∃ a, x = .ok a ∧ f a = .ok b := by
  cases x <;> simp [bind, Except.bind]

@[simp] theorem mapError_eq_ok {α ε ε' : Type} {x : Except ε α} {g : ε → ε'} {a : α} :
    x.mapError g = .ok a ↔ x = .ok a := by
  cases x <;> simp [Except.mapError]

end Machine

namespace Toggle

/-- Follow a switch from position `b` through on/off events: each must flip it. -/
def follow : Bool → List Bool → Option Bool
  | b, [] => some b
  | b, x :: l => if x = !b then follow x l else none

@[simp] theorem follow_nil (b : Bool) : follow b [] = some b := rfl

theorem follow_cons (b x : Bool) (l : List Bool) :
    follow b (x :: l) = if x = !b then follow x l else none := rfl

theorem follow_append (b : Bool) (l₁ l₂ : List Bool) :
    follow b (l₁ ++ l₂) = (follow b l₁).bind (follow · l₂) := by
  induction l₁ generalizing b with
  | nil => rfl
  | cons x l ih =>
    simp only [List.cons_append, follow_cons]
    split
    · exact ih x
    · rfl

/-- Two traces that each bring the switch from one position to the next compose. -/
theorem follow_trans {a b c : Bool} {l₁ l₂ : List Bool} (h₁ : follow a l₁ = some b)
    (h₂ : follow b l₂ = some c) : follow a (l₁ ++ l₂) = some c := by
  rw [follow_append, h₁]
  exact h₂

/-- The position of a switch that each event sets, whether or not it flips it: the
last event, or the start if there is none. -/
def final (b : Bool) (l : List Bool) : Bool := l.foldl (fun _ x => x) b

@[simp] theorem final_nil (b : Bool) : final b [] = b := rfl

@[simp] theorem final_cons (b x : Bool) (l : List Bool) : final b (x :: l) = final x l := rfl

theorem final_append (b : Bool) (l₁ l₂ : List Bool) : final b (l₁ ++ l₂) = final (final b l₁) l₂ :=
  List.foldl_append

/-- A trace that the switch follows ends where its last event sets it. -/
theorem follow_eq_final {b b' : Bool} {l : List Bool} (h : follow b l = some b') : b' = final b l := by
  induction l generalizing b with
  | nil =>
    cases h
    rfl
  | cons x l ih =>
    rw [follow_cons] at h
    split at h
    · exact ih h
    · cases h

/-- Past its first event, where a switch ends does not depend on where it started. -/
theorem final_of_ne_nil (b b' : Bool) {l : List Bool} (hl : l ≠ []) : final b l = final b' l := by
  cases l with
  | nil => exact absurd rfl hl
  | cons x l => rfl

/-- A non-empty trace that the switch follows sets it where it ends, from any start. -/
theorem final_of_follow {a b : Bool} {l : List Bool} (c : Bool) (h : follow a l = some b)
    (hl : l ≠ []) : final c l = b := by
  rw [follow_eq_final h]
  exact final_of_ne_nil c a hl

end Toggle
