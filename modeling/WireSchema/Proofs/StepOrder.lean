import Mathlib.Data.List.Perm.Basic
import WireSchema.Proofs.Findings

/-!
# Steps of a session in any order

A step sees nothing of a session but its scope, and leaves nothing in it but imports, whether it
builds or fails.

* `Step.run_eq_alone`: one step, by what it does in a session of its own.
* `Session.mem_imports_run`: what a run gathers, by induction on the steps.
* `Session.run_independent`: the results of a run, the session after each of its steps, and the same
  steps in another order.
-/

namespace WireSchema

/-- A step in a session of its own, where nothing is imported yet. -/
def Step.alone (scope : Scope) (next : Step) : Except Report Product × Session :=
  next.run { scope }

/-- The frame of a step: its result is the one it has on its own, and the session changes by the
imports that it leaves on its own. -/
theorem Step.run_eq_alone (next : Step) (s : Session) :
    next.run s = ((next.alone s.scope).1, s.importing (next.alone s.scope).2.imports) := by
  simp [alone, run_eq, Built.record]

namespace Session

/-- A longer run goes on in the session that the shorter one left. -/
theorem run_append (done rest : List Step) : ∀ s : Session,
    (s.run (done ++ rest)).2 = ((s.run done).2.run rest).2 := by
  induction done with
  | nil => exact fun s => rfl
  | cons next done ih => exact fun s => ih (s.step next).2

/-- A run gathers what its steps import on their own. -/
theorem mem_imports_run {p : String} (steps : List Step) : ∀ s : Session,
    p ∈ (s.run steps).2.imports ↔
      p ∈ s.imports ∨ ∃ next ∈ steps, p ∈ (next.alone s.scope).2.imports := by
  induction steps with
  | nil => intro s; simp [run]
  | cons next rest ih =>
    intro s
    have hstep : (s.step next).2 = s.importing (next.alone s.scope).2.imports :=
      congrArg Prod.snd (next.run_eq_alone s)
    have hrest : (s.run (next :: rest)).2 = ((s.step next).2.run rest).2 := rfl
    rw [hrest, ih, hstep, imports_importing, scope_importing, StringSet.mem_union, or_assoc]
    simp only [List.mem_cons, or_and_right, exists_or, exists_eq_left]

/-- **One session, any sequence of builds.** Each step yields what it yields on its own, however the
steps before it went. After any of them the session stands in the scope that it started in and has
kept its imports. In the end it has imported what the steps import on their own, so the same steps
in another order have the same results and end in the same session. -/
theorem run_independent (s : Session) (steps : List Step) :
    (s.run steps).1 = steps.map (fun next => (next.alone s.scope).1) ∧
      (∀ done rest, steps = done ++ rest → (s.run done).2.scope = s.scope ∧
        ∀ p ∈ (s.run done).2.imports, p ∈ (s.run steps).2.imports) ∧
      (∀ p, p ∈ (s.run steps).2.imports ↔
        p ∈ s.imports ∨ ∃ next ∈ steps, p ∈ (next.alone s.scope).2.imports) ∧
      ∀ steps', steps.Perm steps' →
        (steps.zip (s.run steps).1).Perm (steps'.zip (s.run steps').1) ∧
          (s.run steps).2 = (s.run steps').2 := by
  have hresults : ∀ l, (s.run l).1 = l.map fun next => (next.alone s.scope).1 :=
    fun l => (run_results l s).1
  have hscope : ∀ l, (s.run l).2.scope = s.scope := fun l => (run_results l s).2
  refine ⟨hresults steps, fun done rest hsplit => ⟨hscope done, fun p hp => ?_⟩,
    fun p => mem_imports_run steps s, fun steps' hperm => ⟨?_, ?_⟩⟩
  · rw [hsplit, run_append]
    exact (mem_imports_run rest _).2 (.inl hp)
  · have hzip : ∀ l : List Step,
        l.zip (s.run l).1 = l.map fun next => (next, (next.alone s.scope).1) :=
      fun l => by rw [hresults, List.map_prod_left_eq_zip]
    rw [hzip, hzip]
    exact hperm.map _
  · have himports : (s.run steps).2.imports = (s.run steps').2.imports :=
      StringSet.ext fun p => by simp only [mem_imports_run, hperm.mem_iff]
    have hsame : (s.run steps).2.scope = (s.run steps').2.scope := by rw [hscope, hscope]
    calc (s.run steps).2 = ⟨(s.run steps).2.scope, (s.run steps).2.imports⟩ := rfl
      _ = ⟨(s.run steps').2.scope, (s.run steps').2.imports⟩ := by rw [hsame, himports]

/-- A message that fails for a number, and a oneof after it: in both orders the message fails, and
the session ends with the import that the message leaves behind. -/
theorem run_independent_failing :
    let file : File := { name := "log.proto" }
    let s : Session := { scope := file.scope ∅ "v.proto" }
    let entry : Step := .message { name := "Entry", fields := [
      (0, .leaf { head := { name := "at" }, type := .timestamp {} })] }
    let level : Step := .oneof { name := "level", choices := [
      (2, .leaf { head := { name := "error" }, type := .bool {} })] }
    (s.run [entry, level]).1.map (fun r => r.toOption.isSome) = [false, true] ∧
      [entry, level].Perm [level, entry] ∧
      (s.run [entry, level]).2 = (s.run [level, entry]).2 ∧
      (s.run [entry, level]).2.imports.toList = ["google/protobuf/timestamp.proto"] := by
  intro file s entry level
  have hswap : [entry, level].Perm [level, entry] := .swap _ _ _
  have hend := ((run_independent s [entry, level]).2.2.2 _ hswap).2
  exact ⟨by decide, hswap, hend, by decide⟩

end Session
end WireSchema
