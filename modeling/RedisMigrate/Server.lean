import RedisMigrate.Lts
import Mathlib.Data.List.Infix

/-! # A server that serves one task at a time

Tasks arrive at the end of a queue; the server takes the one at the front and serves it to its end
before it takes the next.  `arrived` lists all tasks in the order of their arrival.  A
run only appends to it, and what is done is a first part of it (`served_in_order`): no
task is lost or overtaken. -/

/-- The tasks that wait, the one in service, and those that are done. -/
structure Server (τ : Type*) where
  queue : List τ
  inService : Option τ
  done : List τ

namespace Server

variable {τ : Type*}

inductive Act (τ : Type*) where
  | arrive (task : τ)
  | start
  | finish

/-- A task is started when none is in service. -/
def start (s : Server τ) : Option (Server τ) :=
  match s.inService, s.queue with
  | none, task :: rest => some ⟨rest, some task, s.done⟩
  | _, _ => none

def finish (s : Server τ) : Option (Server τ) :=
  s.inService.map fun task => ⟨s.queue, none, s.done ++ [task]⟩

def lts : Lts (Server τ) (Act τ) where
  init s := s = ⟨[], none, []⟩
  step s
    | .arrive task => some ⟨s.queue ++ [task], s.inService, s.done⟩
    | .start => s.start
    | .finish => s.finish

/-- All tasks that have arrived, in that order. -/
def arrived (s : Server τ) : List τ := s.done ++ s.inService.toList ++ s.queue

theorem done_prefix_arrived (s : Server τ) : s.done <+: s.arrived := by
  unfold arrived
  rw [List.append_assoc]
  exact List.prefix_append _ _

theorem step_in_order {s s' : Server τ} {a : Act τ} (h : lts.step s a = some s') :
    s.arrived <+: s'.arrived ∧ s.done <+: s'.done := by
  obtain ⟨queue, inService, done⟩ := s
  cases a with
  | arrive task =>
      obtain rfl := Option.some.inj h
      refine ⟨?_, List.prefix_rfl⟩
      show _ <+: done ++ inService.toList ++ (queue ++ [task])
      rw [← List.append_assoc]
      exact List.prefix_append _ _
  | start =>
      cases inService with
      | some task => cases h
      | none =>
          cases queue with
          | nil => cases h
          | cons task rest =>
              obtain rfl := Option.some.inj h
              constructor
              · simp [arrived]
              · exact List.prefix_rfl
  | finish =>
      cases inService with
      | none => cases h
      | some task =>
          obtain rfl := Option.some.inj h
          constructor
          · simp [arrived]
          · exact List.prefix_append _ _

/-- **No task is lost or overtaken**: a run keeps the order of what has arrived, and what it has
done, and does the tasks in that order. -/
theorem served_in_order {s s' : Server τ} (h : lts.Steps s s') :
    s.arrived <+: s'.arrived ∧ s.done <+: s'.done ∧ s'.done <+: s'.arrived := by
  have hrun : s.arrived <+: s'.arrived ∧ s.done <+: s'.done := by
    apply h.preserves (I := fun t => s.arrived <+: t.arrived ∧ s.done <+: t.done)
    · intro t a t' ⟨h1, h2⟩ hstep
      obtain ⟨h3, h4⟩ := step_in_order hstep
      exact ⟨h1.trans h3, h2.trans h4⟩
    · exact ⟨List.prefix_rfl, List.prefix_rfl⟩
  exact ⟨hrun.1, hrun.2, s'.done_prefix_arrived⟩

end Server
