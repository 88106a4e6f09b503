import Mathlib.Data.List.Basic

structure Script (E R α : Type) where
  trace : List E
  result : Except R α

namespace Script

variable {E R α β : Type}

def emit (e : E) : Script E R Unit := ⟨[e],.ok ()⟩

def stop (r : R) : Script E R α := ⟨[],.error r⟩

def when (c : Bool) (p : Script E R Unit) : Script E R Unit := if c then p else ⟨[],.ok ()⟩

def andThen (p : Script E R α) (k : α → Script E R β) : Script E R β :=
  match p.result with
  | .ok a => ⟨p.trace ++ (k a).trace,(k a).result⟩
  | .error r => ⟨p.trace,.error r⟩

instance : Monad (Script E R) where
  pure a := ⟨[],.ok a⟩
  bind := andThen

@[simp] theorem pure_trace (a : α) : (pure a : Script E R α).trace = [] := rfl

@[simp] theorem pure_result (a : α) : (pure a : Script E R α).result = .ok a := rfl

@[simp] theorem emit_trace (e : E) : (emit e : Script E R Unit).trace = [e] := rfl

@[simp] theorem emit_result (e : E) : (emit e : Script E R Unit).result = .ok () := rfl

@[simp] theorem stop_trace (r : R) : (stop r : Script E R α).trace = [] := rfl

@[simp] theorem stop_result (r : R) : (stop r : Script E R α).result = .error r := rfl

theorem bind_ok {p : Script E R α} {a : α} (h : p.result = .ok a) (k : α → Script E R β) :
    p >>= k = ⟨p.trace ++ (k a).trace,(k a).result⟩ := by
  change andThen p k = _
  simp only [andThen, h]

theorem bind_error {p : Script E R α} {r : R} (h : p.result = .error r) (k : α → Script E R β) :
    p >>= k = ⟨p.trace,.error r⟩ := by
  change andThen p k = _
  simp only [andThen, h]

@[simp] theorem emit_bind (e : E) (k : Unit → Script E R β) :
    emit e >>= k = ⟨e :: (k ()).trace,(k ()).result⟩ := rfl

theorem bind_result_ok_iff {p : Script E R α} {k : α → Script E R β} {b : β} :
    (p >>= k).result = .ok b ↔ ∃ a, p.result = .ok a ∧ (k a).result = .ok b := by
  cases h : p.result with
  | ok a => simp [bind_ok h]
  | error r => simp [bind_error h]

theorem mem_bind_left {p : Script E R α} {k : α → Script E R β} {e : E} (he : e ∈ p.trace) :
    e ∈ (p >>= k).trace := by
  cases h : p.result with
  | ok a =>
    rw [bind_ok h]
    exact List.mem_append_left _ he
  | error r =>
    rw [bind_error h]
    exact he

section Safe

variable (good failed further : E → Prop)

structure Safe (p : Script E R α) : Prop where
  good : ∀ e ∈ p.trace, good e
  stops : p.trace.Pairwise fun e e' => failed e → ¬ further e'

structure Orderly (p : Script E R α) : Prop extends Safe good failed further p where
  clean : ∀ a, p.result = .ok a → ∀ e ∈ p.trace, ¬ failed e

variable {good failed further}

theorem Orderly.pure (a : α) : Orderly good failed further (pure a : Script E R α) :=
  ⟨⟨by simp,by simp⟩,by simp⟩

theorem Orderly.stop (r : R) : Orderly good failed further (stop r : Script E R α) :=
  ⟨⟨by simp,by simp⟩,by simp⟩

theorem Orderly.emit {e : E} (hgood : good e) (hok : ¬ failed e) :
    Orderly good failed further (emit e : Script E R Unit) :=
  ⟨⟨by simpa using hgood,by simp⟩,by simpa using hok⟩

theorem Orderly.when {c : Bool} {p : Script E R Unit}
    (hp : c = true → Orderly good failed further p) : Orderly good failed further (when c p) := by
  cases c with
  | true => exact hp rfl
  | false => exact .pure ()

theorem Safe.bind {p : Script E R α} {k : α → Script E R β}
    (hp : Orderly good failed further p)
    (hk : ∀ a, p.result = .ok a → Safe good failed further (k a)) :
    Safe good failed further (p >>= k) := by
  cases h : p.result with
  | error r =>
    rw [bind_error h]
    exact ⟨hp.good,hp.stops⟩
  | ok a =>
    rw [bind_ok h]
    refine ⟨?_,?_⟩
    · intro e he
      rcases List.mem_append.mp he with he | he
      · exact hp.good e he
      · exact (hk a h).good e he
    · rw [List.pairwise_append]
      refine ⟨hp.stops,(hk a h).stops,?_⟩
      intro e he e' _ hfailed
      exact absurd hfailed (hp.clean a h e he)

theorem Orderly.bind {p : Script E R α} {k : α → Script E R β}
    (hp : Orderly good failed further p)
    (hk : ∀ a, p.result = .ok a → Orderly good failed further (k a)) :
    Orderly good failed further (p >>= k) := by
  refine ⟨Safe.bind hp fun a ha => (hk a ha).toSafe,?_⟩
  intro b hb e he
  obtain ⟨a,ha,hka⟩ := bind_result_ok_iff.mp hb
  rw [bind_ok ha] at he
  rcases List.mem_append.mp he with he | he
  · exact hp.clean a ha e he
  · exact (hk a ha).clean b hka e he

theorem Orderly.emit_then {e : E} {k : Unit → Script E R β} (hgood : good e)
    (hk : Orderly good failed further (k ()))
    (hfail : failed e → (∀ b, (k ()).result ≠ .ok b) ∧ ∀ e' ∈ (k ()).trace, ¬ further e') :
    Orderly good failed further (Script.emit e >>= k) := by
  rw [emit_bind]
  refine ⟨⟨?_,?_⟩,?_⟩
  · rw [List.forall_mem_cons]
    exact ⟨hgood,hk.good⟩
  · rw [List.pairwise_cons]
    exact ⟨fun e' he' hfailed => (hfail hfailed).2 e' he',hk.stops⟩
  · intro b hb
    rw [List.forall_mem_cons]
    exact ⟨fun hfailed => (hfail hfailed).1 b hb,hk.clean b hb⟩

end Safe

end Script
