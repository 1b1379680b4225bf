import Mathlib
import Scriptlet.World

/-!
# What tasks do

A task on a world gives a result or an error, and leaves a world either way. There is one equation for
each way to build a task, so that a task is taken apart by rewriting and never unfolded.

## Main definitions

* `Task.outcome`: what a task gives and leaves
* `Task.ChangesFiles`: a task that changes nothing but files

## Main statements

* `Task.outcome_bind`: a task after another one
* `Task.exists_of_outcome_bind`: both parts of a sequence that succeeds do
* `Task.forall₂_of_outcome_mapM`: the tasks of a list are done in their order
-/

namespace Scriptlet.Task

variable {ε δ α β : Type} {w w' : World}

/-- What a task on a world gives, and the world that it leaves. -/
def outcome (x : Task ε α) (w : World) : Except ε α × World := x.run.run w

@[simp] theorem outcome_pure (a : α) : (pure a : Task ε α).outcome w = (.ok a, w) := rfl

@[simp] theorem outcome_throw (e : ε) : (throw e : Task ε α).outcome w = (.error e, w) := rfl

theorem outcome_bind (x : Task ε α) (f : α → Task ε β) :
    (x >>= f).outcome w =
      match x.outcome w with
      | (.ok a, w') => (f a).outcome w'
      | (.error e, w') => (.error e, w') := by
  change (ExceptT.bindCont f (x.run.run w).1).run (x.run.run w).2 = _
  unfold outcome
  obtain ⟨r, w'⟩ := x.run.run w
  cases r <;> rfl

theorem outcome_map (x : Task ε α) (f : α → β) :
    (f <$> x).outcome w = ((x.outcome w).1.map f, (x.outcome w).2) := by
  rw [map_eq_pure_bind, outcome_bind]
  rcases x.outcome w with ⟨e | a, w'⟩ <;> rfl

theorem outcome_discard (x : Task ε α) :
    (discard x).outcome w = ((x.outcome w).1.map fun _ => (), (x.outcome w).2) :=
  outcome_map x fun _ => ()

@[simp] theorem outcome_get : (get : Task ε World).outcome w = (.ok w, w) := rfl

@[simp] theorem outcome_set : (set w' : Task ε PUnit).outcome w = (.ok ⟨⟩, w') := rfl

@[simp] theorem outcome_report (level : Log.Level) (message : String)
    (fields : List (String × Log.Field)) : (report level message fields : Task ε Unit).outcome w =
      (.ok (), { w with log := w.log ++ [⟨level, message, fields⟩] }) := rfl

@[simp] theorem outcome_edit (f : FileTree → FileTree) :
    (edit f : Task ε Unit).outcome w = (.ok (), { w with files := f w.files }) := rfl

@[simp] theorem outcome_orFail (r : Except δ α) (f : δ → ε) :
    (orFail r f).outcome w = (r.mapError f, w) := by
  cases r <;> rfl

theorem eq_ok_of_mapError {r : Except δ α} {f : δ → ε} {a : α} (h : r.mapError f = .ok a) :
    r = .ok a := by
  cases r with
  | error e => cases h
  | ok b => exact congrArg _ (Except.ok.inj h)

theorem eq_ok_of_toOption {r : Except ε α} {a : α} (h : r.toOption = some a) : r = .ok a := by
  cases r with
  | error e => cases h
  | ok b => exact congrArg _ (Option.some.inj h)

theorem eq_of_toOption {x : Except ε α × World} {a : α} (h : x.1.toOption = some a) :
    x = (.ok a, x.2) :=
  Prod.ext (eq_ok_of_toOption h) rfl

theorem of_outcome_orFail {r : Except δ α} {f : δ → ε} {a : α}
    (h : (orFail r f).outcome w = (.ok a, w')) : r = .ok a ∧ w' = w := by
  rw [outcome_orFail] at h
  obtain ⟨hr, rfl⟩ := Prod.mk.inj h
  exact ⟨eq_ok_of_mapError hr, rfl⟩

@[simp] theorem outcome_onFiles (f : World → Except ε α × FileTree) :
    (onFiles f).outcome w = ((f w).1, { w with files := (f w).2 }) := by
  have hid : (f w).1.mapError id = (f w).1 := by cases (f w).1 <;> rfl
  simp only [onFiles, outcome_bind, outcome_get, outcome_set, outcome_orFail, hid]

@[simp] theorem outcome_cleanup (x : Task ε α) (f : FileTree → FileTree) :
    (x.cleanup f).outcome w =
      ((x.outcome w).1, { (x.outcome w).2 with files := f (x.outcome w).2.files }) := by
  have hlift : outcome (ExceptT.lift x.run : Task ε (Except ε α)) w =
      (.ok (x.outcome w).1, (x.outcome w).2) := rfl
  simp only [cleanup, outcome_bind, hlift, outcome_edit, outcome_orFail]
  rcases (x.outcome w).1 with e | a <;> rfl

theorem outcome_adapt (x : Task δ α) (f : δ → ε) :
    outcome (x.adapt f) w = ((x.outcome w).1.mapError f, (x.outcome w).2) := rfl

theorem run_bind_of_eq {x : StateM World α} {a : α} (h : x.run w = (a, w'))
    (f : α → StateM World β) : (x >>= f).run w = (f a).run w' := by
  change (f (x.run w).1).run (x.run w).2 = _
  rw [h]

/-- A computation that looks at how a task ended. -/
theorem run_bind_run (x : Task ε α) (f : Except ε α → StateM World β) :
    (x.run >>= f).run w = (f (x.outcome w).1).run (x.outcome w).2 := rfl

theorem exists_of_outcome_bind {x : Task ε α} {f : α → Task ε β} {b : β}
    (h : (x >>= f).outcome w = (.ok b, w')) :
    ∃ a v, x.outcome w = (.ok a, v) ∧ (f a).outcome v = (.ok b, w') := by
  rw [outcome_bind] at h
  split at h
  · exact ⟨_, _, ‹_›, h⟩
  · cases h

/-- Two tasks are the same if they give and leave the same in every world. -/
theorem ext {x y : Task ε α} (h : ∀ w, x.outcome w = y.outcome w) : x = y := funext h

/-- Each task of a list that succeeds has done so in some world. -/
theorem forall₂_of_outcome_mapM {f : α → Task ε β} {as : List α} {bs : List β}
    (h : (as.mapM f).outcome w = (.ok bs, w')) :
    List.Forall₂ (fun a b => ∃ v v', (f a).outcome v = (.ok b, v')) as bs := by
  induction as generalizing w w' bs with
  | nil =>
    obtain ⟨⟨⟩, -⟩ := Prod.mk.inj h
    exact .nil
  | cons a as ih =>
    rw [List.mapM_cons] at h
    obtain ⟨b, v, hb, h⟩ := exists_of_outcome_bind h
    obtain ⟨bs', v', hbs, h⟩ := exists_of_outcome_bind h
    obtain ⟨⟨⟩, -⟩ := Prod.mk.inj h
    exact .cons ⟨w, v, hb⟩ (ih hbs)

/-! ## What tasks leave alone -/

/-- The task changes nothing but the files and the log. -/
def ChangesFiles (x : Task ε α) : Prop :=
  ∀ w, ∃ files log, (x.outcome w).2 = { w with files, log }

namespace ChangesFiles

variable {x : Task ε α} {f : α → Task ε β}

theorem pure (a : α) : ChangesFiles (pure a : Task ε α) := fun w => ⟨w.files, w.log, rfl⟩

theorem throw (e : ε) : ChangesFiles (throw e : Task ε α) := fun w => ⟨w.files, w.log, rfl⟩

theorem get : ChangesFiles (get : Task ε World) := fun w => ⟨w.files, w.log, rfl⟩

theorem report (level : Log.Level) (message : String) (fields : List (String × Log.Field)) :
    ChangesFiles (report level message fields : Task ε Unit) := fun w => ⟨w.files, _, rfl⟩

theorem edit (f : FileTree → FileTree) : ChangesFiles (edit f : Task ε Unit) :=
  fun w => ⟨_, w.log, rfl⟩

theorem orFail (r : Except δ α) (f : δ → ε) : ChangesFiles (orFail r f) :=
  fun w => ⟨w.files, w.log, by rw [outcome_orFail]⟩

theorem onFiles (f : World → Except ε α × FileTree) : ChangesFiles (onFiles f) :=
  fun w => ⟨_, w.log, by rw [outcome_onFiles]⟩

theorem bind (hx : ChangesFiles x) (hf : ∀ a, ChangesFiles (f a)) : ChangesFiles (x >>= f) := by
  intro w
  obtain ⟨files, log, hleft⟩ := hx w
  rw [outcome_bind]
  rcases hout : x.outcome w with ⟨e | a, v⟩
  · exact ⟨files, log, by simpa [hout] using hleft⟩
  · obtain ⟨files', log', hleft'⟩ := hf a v
    obtain rfl : v = { w with files, log } := by simpa [hout] using hleft
    exact ⟨files', log', hleft'⟩

theorem cleanup (hx : ChangesFiles x) (f : FileTree → FileTree) : ChangesFiles (x.cleanup f) := by
  intro w
  obtain ⟨files, log, hleft⟩ := hx w
  exact ⟨f files, log, by rw [outcome_cleanup, hleft]⟩

theorem adapt {x : Task δ α} (hx : ChangesFiles x) (f : δ → ε) :
    ChangesFiles (x.adapt f : Task ε α) := hx

/-- The world that is left has other files and another log, and is the same otherwise. -/
theorem exists_eq (hx : ChangesFiles x) {r : Except ε α} (h : x.outcome w = (r, w')) :
    ∃ files log, w' = { w with files, log } := by
  obtain ⟨files, log, hleft⟩ := hx w
  exact ⟨files, log, by rwa [h] at hleft⟩

end ChangesFiles

end Scriptlet.Task
