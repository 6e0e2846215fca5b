import DialectScript.Proofs.Sessions

/-!
# Printing is never observed

**Theorem (`Evaluation.output_unobserved`).** Where an evaluation prints, and what is there already,
has no influence on it: it ends in the same way, with the same heap, and prints the same text. If it
fails, all that was printed up to the fault is kept, and nothing is printed after it.

For the first part, a run from a given state prints one text into every output (`Run.Prints`). The
basic runs other than printing do not look at the output, and the texts of two runs in sequence are
joined. The second part compares the end of the run with the state in which the fault arises
(`Run.FailsAt`): on its way outwards a fault passes nothing that prints.
-/

namespace DialectScript

/-! ## Adding to an output -/

namespace Output

/-- The same destination with a text added at the end of what is there. -/
def add (o : Output) (text : String) : Output :=
  match o with
  | .console waiting => .console (waiting ++ text)
  | .buffer collected => .buffer (collected ++ text)
  | .silent => .silent

@[simp] theorem add_empty (o : Output) : o.add "" = o := by
  cases o <;> simp [add]

@[simp] theorem add_add (o : Output) (first second : String) :
    (o.add first).add second = o.add (first ++ second) := by
  cases o <;> simp [add, String.append_assoc]

theorem printLine_eq_add (o : Output) (line : String) :
    o.printLine line = o.add (line ++ "\n") := by
  cases o <;> simp [add, printLine, String.append_assoc]

end Output

/-- The same state with another output. -/
def State.withOutput (s : State) (output : Output) : State := { s with output }

namespace Run

variable {α β : Type} {x : Run α} {s : State}

/-- The same end of a run in a changed state. -/
def endIn (change : State → State) :
    EStateM.Result Stop State α → EStateM.Result Stop State α
  | .ok a t => .ok a (change t)
  | .error e t => .error e (change t)

/-! ## What a run prints -/

/-- From this state, the run ends in the same way whatever its output is, and adds the text to
it. -/
def Prints (x : Run α) (s : State) (text : String) : Prop :=
  ∀ o, x (s.withOutput o) = endIn (·.withOutput (o.add text)) (x s)

namespace Prints

/-- A run that takes no notice of the output prints nothing. -/
theorem nothing (h : ∀ o, x (s.withOutput o) = endIn (·.withOutput o) (x s)) : x.Prints s "" := by
  intro o
  rw [o.add_empty, h]

theorem bind_error {e : Stop} {t : State} {text : String} (hx : x.Prints s text)
    (hs : x s = .error e t) (f : α → Run β) : (x >>= f).Prints s text := by
  intro o
  have h := hx o
  rw [hs] at h
  simp only [bind, EStateM.bind, hs, h, endIn]

/-- What the second run prints comes after what the first has printed. -/
theorem bind_ok {f : α → Run β} {a : α} {t : State} {first second : String}
    (hx : x.Prints s first) (hs : x s = .ok a t) (hf : (f a).Prints t second) :
    (x >>= f).Prints s (first ++ second) := by
  intro o
  have h := hx o
  rw [hs] at h
  have hnext := hf (o.add first)
  rw [o.add_add] at hnext
  simp only [bind, EStateM.bind, hs, h, endIn]
  exact hnext

/-- A call prints what its body prints. -/
theorem inCall {name : String} {calls : CallStack} {text : String}
    (hpush : s.calls.push name = .ok calls) (hx : x.Prints { s with calls } text) :
    (Run.inCall name x).Prints s text := by
  intro o
  have hbody : x { s.withOutput o with calls } =
      endIn (·.withOutput (o.add text)) (x { s with calls }) := hx o
  have hpush' : (s.withOutput o).calls.push name = .ok calls := hpush
  simp only [Run.inCall, hpush, hpush', hbody]
  cases x { s with calls } with
  | ok a t => rfl
  | error e t => cases e <;> rfl

end Prints

/-- From every state, a composed run prints some text. -/
theorem Composed.exists_prints (h : x.Composed) (s : State) : ∃ text, x.Prints s text := by
  -- No step looks at the output, so each prints one text whatever it is.
  induction h generalizing s with
  | value | stop | fromHeap | change | make => exact ⟨"", .nothing fun _ => rfl⟩
  | onScope name f =>
    refine ⟨"", .nothing fun o => ?_⟩
    simp only [Run.onScope, State.withOutput]
    cases f s.heap <;> rfl
  | readVariable scope name =>
    refine ⟨"", .nothing fun o => ?_⟩
    simp only [Run.readVariable, State.withOutput]
    cases s.heap.read scope name <;> rfl
  | printLine line =>
    refine ⟨line ++ "\n", fun o => ?_⟩
    rw [← o.printLine_eq_add]
    rfl
  | @bind α β x f _ _ ihx ihf =>
    obtain ⟨first, hfirst⟩ := ihx s
    cases hx : x s with
    | error e t => exact ⟨first, hfirst.bind_error hx f⟩
    | ok a t =>
      obtain ⟨second, hsecond⟩ := ihf a t
      exact ⟨first ++ second, hfirst.bind_ok hx hsecond⟩
  | @inCall α name body _ ih =>
    cases hpush : s.calls.push name with
    | error f =>
      refine ⟨"", .nothing fun o => ?_⟩
      simp only [Run.inCall, State.withOutput, hpush, endIn]
    | ok calls =>
      obtain ⟨text, htext⟩ := ih { s with calls }
      exact ⟨text, htext.inCall hpush⟩

end Run

/-! ## Evaluations -/

namespace Evaluation

variable {fuel : Nat} {x : Run Value}

/-- Every fault that ends an evaluation arises in some state of it. -/
theorem exists_failsAt (h : Evaluation fuel x) {s t : State} {f : Fault}
    (hf : x s = .error (.fault f) t) : ∃ u, x.FailsAt s f.cause u := by
  obtain ⟨scope, hx⟩ := h.exists_in
  obtain ⟨raised, hraised⟩ := hx.scoped.traced s f t hf
  obtain ⟨u, hu, -⟩ := hraised.failsAt
  exact ⟨u, hu⟩

/-- An evaluation takes no notice of its output and adds one text to it, and a failing one has
printed in the end what it had printed when the fault arose. -/
theorem output_unobserved (h : Evaluation fuel x) (heap : Heap) (calls : CallStack) :
    (∃ text, ∀ o, x ⟨heap, o, calls⟩ =
      Run.endIn (·.withOutput (o.add text)) (x ⟨heap, .silent, calls⟩)) ∧
    ∀ o f t, x ⟨heap, o, calls⟩ = .error (.fault f) t →
      (∃ u, x.FailsAt ⟨heap, o, calls⟩ f.cause u) ∧
      ∀ u, x.FailsAt ⟨heap, o, calls⟩ f.cause u → o.Extends u.output ∧ t.output = u.output := by
  refine ⟨h.composed.exists_prints ⟨heap, .silent, calls⟩, fun o f t hf => ?_⟩
  refine ⟨h.exists_failsAt hf, fun u hu => ?_⟩
  obtain ⟨f', -, hf'⟩ := hu.ends
  rw [hf] at hf'
  cases hf'
  have hextends := h.composed.output_final ⟨heap, o, calls⟩
  rw [Run.final_of_error hf] at hextends
  exact ⟨hextends, rfl⟩

/-- A program that prints `a` and then reads an unbound name, with any output and with `b` in the
buffer. -/
theorem output_unobserved_unbound :
    let program : Program :=
      [.expression (.call (.identifier "print") [.string "a"]), .expression (.identifier "y")]
    let unbound : Fault := .ofCause (.undeclaredVariable "y")
    let heap := Heap.empty.global.2
    let calls := CallStack.empty none
    ∃ text, (Output.buffer "b").add text = .buffer "ba\n" ∧
      (∀ o, program.run 9 0 ⟨heap, o, calls⟩ = .error (.fault unbound) ⟨heap, o.add text, calls⟩) ∧
      ∃ u, (program.run 9 0).FailsAt ⟨heap, .buffer "b", calls⟩ unbound.cause u ∧
        u.output = .buffer "ba\n" := by
  intro program unbound heap calls
  have hsilent : program.run 9 0 ⟨heap, .silent, calls⟩ =
      .error (.fault unbound) ⟨heap, .silent, calls⟩ := by
    subst program unbound heap calls
    cbv
  have hbuffer : program.run 9 0 ⟨heap, .buffer "b", calls⟩ =
      .error (.fault unbound) ⟨heap, .buffer "ba\n", calls⟩ := by
    subst program unbound heap calls
    cbv
  have h : Evaluation 9 (program.run 9 0) := .program 0 program
  obtain ⟨⟨text, htext⟩, hfails⟩ := h.output_unobserved heap calls
  rw [hsilent] at htext
  obtain ⟨⟨u, hu⟩, hend⟩ := hfails _ _ _ hbuffer
  refine ⟨text, ?_, htext, u, hu, (hend u hu).2.symm⟩
  have hadded := (htext (.buffer "b")).symm.trans hbuffer
  exact congrArg State.output (EStateM.Result.error.inj hadded).2

end Evaluation

end DialectScript
