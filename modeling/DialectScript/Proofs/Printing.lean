import DialectScript.Proofs.Calls

/-!
# What a run prints

Printing only ever adds to the end of what is there (`Output.Extends`), so whichever way a run ends,
what was printed before it is kept (`Run.Composed.output_final`).
-/

namespace DialectScript

namespace Output

/-- The second output goes to the same destination and begins with what the first has. -/
inductive Extends : Output → Output → Prop
  | console (waiting more : String) : Extends (.console waiting) (.console (waiting ++ more))
  | buffer (text more : String) : Extends (.buffer text) (.buffer (text ++ more))
  | silent : Extends .silent .silent

namespace Extends

variable {o p q : Output}

theorem refl (o : Output) : Extends o o := by
  cases o with
  | console waiting =>
    have h := console waiting ""
    rwa [String.append_empty] at h
  | buffer text =>
    have h := buffer text ""
    rwa [String.append_empty] at h
  | silent => exact silent

theorem trans (h : Extends o p) (h' : Extends p q) : Extends o q := by
  cases h with
  | console waiting more =>
    cases h' with
    | console _ more' =>
      rw [String.append_assoc]
      exact console waiting (more ++ more')
  | buffer text more =>
    cases h' with
    | buffer _ more' =>
      rw [String.append_assoc]
      exact buffer text (more ++ more')
  | silent => exact h'

theorem printLine (line : String) (o : Output) : Extends o (o.printLine line) := by
  cases o with
  | console waiting =>
    rw [Output.printLine, String.append_assoc]
    exact console waiting _
  | buffer text =>
    rw [Output.printLine, String.append_assoc]
    exact buffer text _
  | silent => exact silent

end Extends

end Output

/-- Whichever way a composed run ends, what was printed before it is kept. -/
theorem Run.Composed.output_final {α : Type} {x : Run α} (h : x.Composed) (s : State) :
    s.output.Extends (x.final s).output := by
  induction h generalizing s with
  | value | stop | fromHeap | change | make => exact .refl _
  | onScope name f =>
    rcases final_onScope name f s with ⟨heap, -, hfinal⟩ | hfinal <;> rw [hfinal] <;> exact .refl _
  | readVariable scope name =>
    rw [final_readVariable]
    exact .refl _
  | printLine line => exact .printLine line s.output
  | @bind α β x f _ _ ihx ihf =>
    rcases final_bind x f s with ⟨a, -, hfinal⟩ | hfinal
    · rw [hfinal]
      exact (ihx s).trans (ihf a _)
    · rw [hfinal]
      exact ihx s
  | @inCall α name body _ ih =>
    rcases final_inCall name body s with ⟨calls, -, hfinal⟩ | hfinal
    · rw [hfinal]
      exact ih { s with calls }
    · rw [hfinal]
      exact .refl _

end DialectScript
