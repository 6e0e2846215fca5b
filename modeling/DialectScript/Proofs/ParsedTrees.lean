import DialectScript.Proofs.Fallback
import DialectScript.Proofs.Lookahead
import Mathlib

/-!
# What evaluation may rely on

A syntax tree can hold what no source can: a constant without a value, a property behind a dot that
is no name, a number that is not finite. The evaluators are defined for these trees too.

**Theorem (`Session.reached_without_fallback`).** No program that is read from tokens holds any of
these, at any depth. In a session that has run only such programs, every run of such a program is
the same whatever the evaluators do about a property that is no name.

* `Program.Contains` — an expression or a statement stands somewhere in a program, inside functions
  too. What stands in a program that can be written can be written (`Program.Writable.construct`).
* `Session.Reached` — the sessions that have run only programs that were read from tokens.

A function outlives the program that declared it, so the second part rests on an invariant of the
heap: the bodies of all functions can be written (`Session.Reached.bodies`).
-/

namespace DialectScript

/-! ## What stands in a program -/

/-- An expression or a statement. -/
inductive Construct where
  | expression (e : Expr)
  | statement (s : Stmt)

/-- The first construct is one that the second is made of. -/
inductive Construct.Child : Construct → Construct → Prop
  | left (operator : Operator) (l r : Expr) :
      Child (.expression l) (.expression (.binary operator l r))
  | right (operator : Operator) (l r : Expr) :
      Child (.expression r) (.expression (.binary operator l r))
  | target (target value : Expr) : Child (.expression target) (.expression (.assign target value))
  | assigned (target value : Expr) : Child (.expression value) (.expression (.assign target value))
  | entry {properties : List (Property Expr)} {key : String} {value : Expr} :
      .pair key value ∈ properties → Child (.expression value) (.expression (.object properties))
  | element {elements : List Expr} {e : Expr} :
      e ∈ elements → Child (.expression e) (.expression (.array elements))
  | container (object property : Expr) (access : Access) :
      Child (.expression object) (.expression (.member object property access))
  | property (object property : Expr) (access : Access) :
      Child (.expression property) (.expression (.member object property access))
  | callee (callee : Expr) (arguments : List Expr) :
      Child (.expression callee) (.expression (.call callee arguments))
  | argument (callee : Expr) {arguments : List Expr} {e : Expr} :
      e ∈ arguments → Child (.expression e) (.expression (.call callee arguments))
  | initializer (mutability : Mutability) (name : String) (init : Expr) :
      Child (.expression init) (.statement (.declare mutability name (some init)))
  | functionBody (name : String) (params : List String) {body : List Stmt} {s : Stmt} :
      s ∈ body → Child (.statement s) (.statement (.function name params body))
  | condition (condition : Expr) (thenBody : List Stmt) (elseBody : Option (List Stmt)) :
      Child (.expression condition) (.statement (.branch condition thenBody elseBody))
  | thenBody (condition : Expr) {thenBody : List Stmt} (elseBody : Option (List Stmt)) {s : Stmt} :
      s ∈ thenBody → Child (.statement s) (.statement (.branch condition thenBody elseBody))
  | elseBody (condition : Expr) (thenBody : List Stmt) {elseBody : List Stmt} {s : Stmt} :
      s ∈ elseBody → Child (.statement s) (.statement (.branch condition thenBody (some elseBody)))
  | loopCondition (condition : Expr) (body : List Stmt) :
      Child (.expression condition) (.statement (.loop condition body))
  | loopBody (condition : Expr) {body : List Stmt} {s : Stmt} :
      s ∈ body → Child (.statement s) (.statement (.loop condition body))
  | expressionStatement (e : Expr) : Child (.expression e) (.statement (.expression e))

/-- The construct stands in the program, at any depth. -/
def Program.Contains (program : Program) (construct : Construct) : Prop :=
  ∃ s ∈ program, Relation.ReflTransGen Construct.Child construct (.statement s)

/-- The construct can be written. -/
def Construct.Writable : Construct → Prop
  | .expression e => e.Writable
  | .statement s => s.Writable

namespace Construct

/-- What a construct that can be written is made of can be written. -/
theorem Child.writable {child construct : Construct} (h : child.Child construct)
    (hconstruct : construct.Writable) : child.Writable := by
  cases h <;> dsimp only [Construct.Writable] at hconstruct ⊢
  case left => cases hconstruct with | binary hl _ => exact hl
  case right => cases hconstruct with | binary _ hr => exact hr
  case target => cases hconstruct with | assign ht _ => exact ht
  case assigned => cases hconstruct with | assign _ hv => exact hv
  case entry hentry => cases hconstruct with | object hentries => exact hentries _ _ hentry
  case element he => cases hconstruct with | array helements => exact helements _ he
  case container => cases hconstruct with | dot _ ho | bracket ho _ => exact ho
  case property =>
    cases hconstruct with
    | dot name _ => exact .identifier name
    | bracket _ hi => exact hi
  case callee => cases hconstruct with | call hc _ => exact hc
  case argument he => cases hconstruct with | call _ harguments => exact harguments _ he
  case initializer => cases hconstruct with | declare _ _ hinit => exact hinit
  case functionBody hs => cases hconstruct with | function _ _ hbody => exact hbody _ hs
  case condition => cases hconstruct with | branch hc _ | branchElse hc _ _ => exact hc
  case thenBody hs =>
    cases hconstruct with | branch _ hthen | branchElse _ hthen _ => exact hthen _ hs
  case elseBody hs => cases hconstruct with | branchElse _ _ helse => exact helse _ hs
  case loopCondition => cases hconstruct with | loop hc _ => exact hc
  case loopBody hs => cases hconstruct with | loop _ hbody => exact hbody _ hs
  case expressionStatement => cases hconstruct with | expression he => exact he

end Construct

namespace Program

variable {program : Program} {tokens : List Token}

/-- Every construct of a program that can be written can be written. -/
theorem Writable.construct (h : program.Writable) {construct : Construct}
    (hconstruct : program.Contains construct) : construct.Writable := by
  obtain ⟨s, hs, hbelow⟩ := hconstruct
  induction hbelow using Relation.ReflTransGen.head_induction_on with
  | refl => exact h s hs
  | head hchild _ ih => exact hchild.writable ih

/-- What is read from tokens can be written. -/
theorem writable_of_ofTokens (h : ofTokens tokens = .ok program) : program.Writable := by
  obtain ⟨marker, n, hm, hread⟩ := reading_of_ofTokens h
  have hsound := (Grammar.statementSound hm n).statements .endOfInput
    (tokens.takeWhile (·.kind ≠ .endOfInput))
  rw [hread] at hsound
  obtain ⟨used, -, hspells, -⟩ := hsound
  exact hspells.writable

theorem Writable.initialized (h : program.Writable) {name : String} {init : Option Expr}
    (hconstruct : program.Contains (.statement (.declare .constant name init))) : init.isSome := by
  cases h.construct hconstruct
  rfl

theorem Writable.named (h : program.Writable) {object property : Expr}
    (hconstruct : program.Contains (.expression (.member object property .dot))) :
    ∃ name, property = .identifier name := by
  cases h.construct hconstruct with
  | dot name _ => exact ⟨name, rfl⟩

theorem Writable.finite (h : program.Writable) {x : Float}
    (hconstruct : program.Contains (.expression (.number x))) : x.isFinite := by
  cases h.construct hconstruct with
  | number hx => exact Numeral.isFinite_of_value? hx

end Program

/-! ## Sessions -/

namespace Heap.Bodies

variable {P : List Stmt → Prop} {h : Heap}

theorem provide (hh : h.Bodies P) (id : ScopeId) (name : String) (v : Value) :
    (h.provide id name v).Bodies P := by
  unfold Heap.provide
  split
  · next hd => exact hh.declare hd
  · exact hh

/-- The built-ins are no functions of the heap. -/
theorem install (hh : h.Bodies P) (id : ScopeId) : (h.install id).Bodies P := by
  have hobject : (h.newObject Builtin.arrayOperations).2.Bodies P := hh
  unfold Heap.install
  refine List.foldlRecOn _ _ hobject ?_
  exact fun h₀ hh₀ entry _ => hh₀.provide id entry.1 entry.2

theorem global (hh : h.Bodies P) : h.global.2.Bodies P := by
  have hroot : h.root.2.Bodies P := hh
  simp only [Heap.global]
  exact hroot.install h.root.1

end Heap.Bodies

namespace Session

/-- A session that has run programs that were read from tokens, and no others, with any amounts of
fuel and whatever became of them. Of what is in the session only the heap has to stay: the output,
the call stack, the scope and the dialect may be replaced between programs. -/
inductive Reached : Session → Prop
  | start (options : Options) (output : Output) : Reached (start options output)
  | run {s : Session} (fuel : Nat) {tokens : List Token} {program : Program} :
      Reached s → Program.ofTokens tokens = .ok program → Reached (s.runProgram fuel program).2
  | replace {s s' : Session} : Reached s → s'.state.heap = s.state.heap → Reached s'

variable {s : Session}

theorem Reached.bodies (hs : s.Reached) : s.state.heap.Bodies Program.Writable := by
  induction hs with
  | start options output =>
    have hempty : Heap.empty.Bodies Program.Writable := fun c hc => absurd hc (by simp [Heap.empty])
    exact hempty.global
  | @run s fuel _ program _ hread ih =>
    have hbody := (fallbackIdle fuel).body s.scope .null (Program.writable_of_ofTokens hread)
    rw [s.runProgram_snd fuel program]
    exact (hbody s.state ih).2
  | replace _ heap ih => rwa [heap]

/-- A program that is read from tokens has a value for each of its constants, a name behind each of
its dots, and only finite numbers. The evaluators that fall back on the fault for a property that is
no name are those of the language, and in a session that has run only programs that were read, they
run such a program as those that fall back on anything else: what they fall back on is never
reached. -/
theorem reached_without_fallback :
    (∀ (tokens : List Token) (program : Program), Program.ofTokens tokens = .ok program →
      (∀ name init, program.Contains (.statement (.declare .constant name init)) → init.isSome) ∧
      (∀ object property, program.Contains (.expression (.member object property .dot)) →
        ∃ name, property = .identifier name) ∧
      ∀ x, program.Contains (.expression (.number x)) → x.isFinite) ∧
    (∀ (fuel : Nat) (scope : ScopeId) (program : Program),
      program.runWith .standard fuel scope = program.run fuel scope) ∧
    ∀ s : Session, s.Reached → ∀ (tokens : List Token) (program : Program),
      Program.ofTokens tokens = .ok program → ∀ (fallback : Fallback) (fuel : Nat),
        program.runWith fallback fuel s.scope s.state = program.run fuel s.scope s.state := by
  refine ⟨fun tokens program hread => ?_, fun fuel scope program => rfl, ?_⟩
  · have hwritable := Program.writable_of_ofTokens hread
    exact ⟨fun _ _ => hwritable.initialized, fun _ _ => hwritable.named,
      fun _ => hwritable.finite⟩
  · intro s hs tokens program hread fallback fuel
    have hwritable := Program.writable_of_ofTokens hread
    exact ((fallbackIdle fuel).body s.scope .null hwritable s.state hs.bodies).1 fallback

/-- A function that was declared by one program reads the property of a constant when another
program calls it, also if the evaluators fall back on using up their fuel. -/
theorem reached_without_fallback_captured :
    let t (kind : Kind) (text : String) : Token := ⟨kind, text, ⟨0, 0⟩⟩
    let tokens := [t .constKeyword "const", t .identifier "o", t .equals "=", t .leftBrace "\x7b",
      t .identifier "a", t .colon ":", t .string "x", t .rightBrace "\x7d",
      t .functionKeyword "fn", t .identifier "f", t .leftParen "(", t .rightParen ")",
      t .leftBrace "\x7b", t .identifier "o", t .dot ".", t .identifier "a",
      t .rightBrace "\x7d"]
    let tokens' := [t .identifier "f", t .leftParen "(", t .rightParen ")"]
    let program : Program := [
      .declare .constant "o" (some (.object [.pair "a" (.string "x")])),
      .function "f" [] [.expression (.member (.identifier "o") (.identifier "a") .dot)]]
    let call : Program := [.expression (.call (.identifier "f") [])]
    let s := ((start .standard .silent).runProgram 8 program).2
    let stuck : Fallback := ⟨fun _ => throw .outOfFuel⟩
    Program.ofTokens tokens = .ok program ∧ Program.ofTokens tokens' = .ok call ∧ s.Reached ∧
      ∃ u, call.runWith stuck 8 s.scope s.state = .ok (.string "x") u := by
  intro t tokens tokens' program call s stuck
  -- The member is accessed by the second program, in a body that the first one left in the heap.
  have hread : Program.ofTokens tokens = .ok program := rfl
  have hs : s.Reached := (Reached.start .standard .silent).run 8 hread
  obtain ⟨-, -, hrun⟩ := reached_without_fallback
  refine ⟨hread, rfl, hs, (call.run 8 s.scope).final s.state, ?_⟩
  rw [hrun s hs tokens' call rfl stuck 8]
  subst s call program
  cbv

end Session

end DialectScript
