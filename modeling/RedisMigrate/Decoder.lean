import Mathlib.Data.List.Basic
import Mathlib.Order.Basic

/-! # Incremental decoders

A `Decoder` reads a stream that arrives in pieces.  In a state it looks at the part of the
stream that it has not consumed and waits for more, fails, or consumes a part of it; what it
decides on some input it decides on every longer one.  The structure carries this, so a decoder
that looks at the end of the input cannot be written down.

* `drain` goes on until the decoder waits or fails; `drain_append` is the decoder on a stream in
  two pieces.
* `Explains` relates a stream with what was read of it so far, and is kept by every step
  (`Explains.feed`, `Explains.advance`, `Explains.fail`), so the order in which input arrives and
  the decoder runs does not matter: `Explains.outputs_begin` and `Explains.settled`. -/

/-- What a decoder does with its unconsumed input. -/
inductive Decoder.Next (σ β ω ε : Type*) where
  | wait
  | fail (e : ε)
  | advance (s : σ) (out : Option ω) (rest : List β)
deriving DecidableEq

structure Decoder (σ β ω ε : Type*) where
  next : σ → List β → Decoder.Next σ β ω ε
  consumes : ∀ {s b s' o rest}, next s b = .advance s' o rest → rest.length < b.length
  advance_append : ∀ {s b s' o rest}, next s b = .advance s' o rest →
    ∀ x, next s (b ++ x) = .advance s' o (rest ++ x)
  fail_append : ∀ {s b e}, next s b = .fail e → ∀ x, next s (b ++ x) = .fail e

namespace Decoder

/-- A decoder between two calls. -/
inductive State (σ β ε : Type*) where
  | ready (s : σ) (pending : List β)
  | failed (e : ε)
deriving DecidableEq

namespace State

variable {σ β ε : Type*}

/-- More input; after a failure it is ignored. -/
def feed (c : State σ β ε) (x : List β) : State σ β ε :=
  match c with
  | ready s pending => ready s (pending ++ x)
  | failed e => failed e

@[simp] theorem feed_ready (s : σ) (b x : List β) :
    (ready s b : State σ β ε).feed x = ready s (b ++ x) := rfl

@[simp] theorem feed_failed (e : ε) (x : List β) : (failed e : State σ β ε).feed x = failed e := rfl

end State

variable {σ β ω ε : Type*} (D : Decoder σ β ω ε)

def drainFuel : ℕ → σ → List β → List ω × State σ β ε
  | 0, s, b => ([], .ready s b)
  | n + 1, s, b =>
      match D.next s b with
      | .wait => ([], .ready s b)
      | .fail e => ([], .failed e)
      | .advance s' o rest =>
          let r := drainFuel n s' rest
          (o.toList ++ r.1, r.2)

/-- Everything that the decoder makes of the input `b`, and where it stops. -/
def drain (s : σ) (b : List β) : List ω × State σ β ε := D.drainFuel (b.length + 1) s b

/-- `drain` from a state between two calls. -/
def settle : State σ β ε → List ω × State σ β ε
  | .ready s b => D.drain s b
  | .failed e => ([], .failed e)

variable {D}

theorem drainFuel_eq_drain {n : ℕ} {s : σ} {b : List β} (hn : b.length < n) :
    D.drainFuel n s b = D.drain s b := by
  induction n using Nat.strongRecOn generalizing s b with
  | ind n ih =>
      obtain ⟨m, rfl⟩ : ∃ m, n = m + 1 := ⟨n - 1, by omega⟩
      cases h : D.next s b with
      | wait => simp [drain, drainFuel, h]
      | fail e => simp [drain, drainFuel, h]
      | advance s' o rest =>
          have hlt := D.consumes h
          rw [drain, drainFuel, drainFuel]
          simp only [h]
          rw [ih m (by omega) (by omega), ih b.length (by omega) hlt]

theorem drain_wait {s : σ} {b : List β} (h : D.next s b = .wait) :
    D.drain s b = ([], .ready s b) := by simp [drain, drainFuel, h]

theorem drain_fail {s : σ} {b : List β} {e : ε} (h : D.next s b = .fail e) :
    D.drain s b = ([], .failed e) := by simp [drain, drainFuel, h]

theorem drain_advance {s s' : σ} {b rest : List β} {o : Option ω}
    (h : D.next s b = .advance s' o rest) :
    D.drain s b = (o.toList ++ (D.drain s' rest).1, (D.drain s' rest).2) := by
  rw [drain, drainFuel]
  simp only [h]
  rw [drainFuel_eq_drain (D.consumes h)]

/-- Induction along the steps of a drain. -/
theorem drain_induct {P : σ → List β → Prop} (hwait : ∀ s b, D.next s b = .wait → P s b)
    (hfail : ∀ s b e, D.next s b = .fail e → P s b)
    (hadvance : ∀ s b s' o rest, D.next s b = .advance s' o rest → P s' rest → P s b)
    (s : σ) (b : List β) : P s b := by
  induction hn : b.length using Nat.strongRecOn generalizing s b with
  | ind n ih =>
      cases h : D.next s b with
      | wait => exact hwait s b h
      | fail e => exact hfail s b e h
      | advance s' o rest =>
          exact hadvance s b s' o rest h (ih _ (hn ▸ D.consumes h) s' rest rfl)

/-- The decoder on a stream in two pieces goes on where it stopped after the first. -/
theorem drain_append (s : σ) (b x : List β) :
    D.drain s (b ++ x) = ((D.drain s b).1 ++ (D.settle ((D.drain s b).2.feed x)).1,
      (D.settle ((D.drain s b).2.feed x)).2) := by
  induction s, b using D.drain_induct with
  | hwait s b h => simp [drain_wait h, settle]
  | hfail s b e h => simp [drain_fail h, drain_fail (D.fail_append h x), settle]
  | hadvance s b s' o rest h ih =>
      rw [drain_advance h, drain_advance (D.advance_append h x), ih]
      simp

/-! ### What was read so far -/

/-- Of the stream `fed`, a decoder that began in `s₀` has produced `outs` and is now in `c`. -/
def Explains (D : Decoder σ β ω ε) (s₀ : σ) (fed : List β) (outs : List ω) (c : State σ β ε) :
    Prop :=
  D.drain s₀ fed = (outs ++ (D.settle c).1, (D.settle c).2)

variable {s₀ : σ} {fed : List β} {outs : List ω} {c : State σ β ε}

theorem Explains.start (s₀ : σ) : D.Explains s₀ [] [] (.ready s₀ []) := rfl

theorem Explains.feed (h : D.Explains s₀ fed outs c) (x : List β) :
    D.Explains s₀ (fed ++ x) outs (c.feed x) := by
  unfold Explains at h ⊢
  rw [drain_append, h]
  cases c with
  | failed e => simp [settle]
  | ready s b =>
      simp only [settle, State.feed_ready, drain_append s b x]
      simp

theorem Explains.advance {s s' : σ} {b rest : List β} {o : Option ω}
    (h : D.Explains s₀ fed outs (.ready s b)) (hn : D.next s b = .advance s' o rest) :
    D.Explains s₀ fed (outs ++ o.toList) (.ready s' rest) := by
  unfold Explains at h ⊢
  rw [h, settle, drain_advance hn, settle]
  simp

theorem Explains.fail {s : σ} {b : List β} {e : ε}
    (h : D.Explains s₀ fed outs (.ready s b)) (hn : D.next s b = .fail e) :
    D.Explains s₀ fed outs (.failed e) := by
  unfold Explains at h ⊢
  rw [h, settle, drain_fail hn, settle]

/-- What was produced is the beginning of what the whole stream gives. -/
theorem Explains.outputs_begin (h : D.Explains s₀ fed outs c) : outs <+: (D.drain s₀ fed).1 := by
  rw [h]
  exact List.prefix_append _ _

/-- A decoder that has nothing left to do has produced what the whole stream gives. -/
theorem Explains.settled (h : D.Explains s₀ fed outs c) (hc : D.settle c = ([], c)) :
    D.drain s₀ fed = (outs, c) := by
  rw [h, hc, List.append_nil]

theorem settle_wait {s : σ} {b : List β} (h : D.next s b = .wait) :
    D.settle (.ready s b) = ([], .ready s b) := drain_wait h

/-- What the whole stream gives begins with what a first part of it gives. -/
theorem drain_mono (s : σ) (b x : List β) : (D.drain s b).1 <+: (D.drain s (b ++ x)).1 := by
  rw [drain_append]
  exact List.prefix_append _ _

end Decoder
