import Formwork.Report
import Mathlib.Data.List.Induction

/-!
# Reports of validations

A report brings the messages about invalid fields together under the dotted texts of their paths below the root. It
is valid if there are none (`ValidationReport.isValid_ofFailures`). Fields with different keys keep their messages
apart and their order (`ValidationReport.ofFailures_of_nodup`).
-/

set_option autoImplicit false

namespace Formwork

namespace Response

theorem gathered_concat (messages : Messages) (entry : String × List String) :
    gathered (messages ++ [entry]) = Assoc.addAll entry.1 entry.2 (gathered messages) :=
  List.foldl_append

/-- Bringing messages together leaves none out. -/
theorem gathered_eq_nil_iff {messages : Messages} : gathered messages = [] ↔ messages = [] := by
  induction messages using List.reverseRecOn with
  | nil => exact iff_of_true rfl rfl
  | append_singleton front entry =>
      rw [gathered_concat]
      exact iff_of_false (Assoc.addAll_ne_nil _ _ _) (List.append_ne_nil_of_right_ne_nil _ (List.cons_ne_nil _ _))

/-- Messages of different paths stay apart. -/
theorem gathered_of_nodup {messages : Messages} (once : (messages.map Prod.fst).Nodup) :
    gathered messages = messages := by
  induction messages using List.reverseRecOn with
  | nil => rfl
  | append_singleton front entry ih =>
      rw [List.map_append, List.nodup_append] at once
      obtain ⟨frontOnce, -, apart⟩ := once
      have absent : entry.1 ∉ Assoc.keys front := fun inside => apart _ inside _ (List.mem_singleton_self _) rfl
      rw [gathered_concat, ih frontOnce, Assoc.addAll_of_not_mem _ absent]

end Response

namespace ValidationReport

/-- The key of a path in the report of a tree whose root has the path `here`. -/
def key (here path : Path) : String := ((path.stripFront? here).getD path).text

theorem isValid_ofFailures {here : Path} {failures : List (Path × List String)} :
    (ofFailures here failures).isValid = true ↔ failures = [] := by
  simp only [ofFailures, isValid, List.isEmpty_iff, Response.gathered_eq_nil_iff, List.map_eq_nil_iff]

/-- Fields with different keys are reported one after the other. -/
theorem ofFailures_of_nodup {here : Path} {failures : List (Path × List String)}
    (once : (failures.map fun entry => key here entry.1).Nodup) :
    ofFailures here failures =
      ⟨if failures = [] then 200 else 422, failures.map fun entry => (key here entry.1, entry.2)⟩ := by
  have apart : Response.gathered (failures.map fun entry => (key here entry.1, entry.2)) =
      failures.map fun entry => (key here entry.1, entry.2) :=
    Response.gathered_of_nodup (by rwa [List.map_map])
  have empty : (failures.map fun entry => (key here entry.1, entry.2)).isEmpty = decide (failures = []) := by
    cases failures <;> rfl
  calc ofFailures here failures
      = ⟨if (Response.gathered (failures.map fun entry => (key here entry.1, entry.2))).isEmpty then 200 else 422,
          Response.gathered (failures.map fun entry => (key here entry.1, entry.2))⟩ := rfl
    _ = _ := by simp only [apart, empty, decide_eq_true_eq]

end ValidationReport

end Formwork
