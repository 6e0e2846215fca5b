import DialectScript.Value.Display

/-!
# Rendering and unfoldings

A value unfolds into a tree (`Heap.unfolding`): at the end of each path stands what is found there
on the heap. If a container is within itself, the tree has no end.

A tree is cut at a depth by putting marks in place of the containers there (`Tree.prune`). A text is
written out for a tree from the leaves to the root, without counting levels (`Tree.Written`).

**Theorem (`Heap.rendering_bounded`).** On every heap, what printing and inspection show of a value
is what is written out for its unfolding, cut at ten levels and at thirty-two. So values on any two
heaps have the same text if their unfoldings agree down to there, and it makes no difference what
is changed on the heap below.

Both renderers put leaves, objects and arrays together in a manner of their own (`Writing`), and
that they write the cut tree is one induction on the levels that may still be opened
(`Writing.Writes.written`).
-/

namespace DialectScript

/-! ## Trees -/

/-- What has nothing inside: a plain value, or the mark of a container that is not shown. -/
inductive Leaf where
  | null
  | number (x : Float)
  | string (text : String)
  | boolean (b : Bool)
  | function (name : String) (params : List String)
  | builtin (b : Builtin)
  | objectMark
  | arrayMark

/-- What stands at a place of a tree, apart from what is inside. -/
inductive Node where
  | leaf (l : Leaf)
  | object (keys : List String)
  | array (size : Nat)

/-- The mark of a container. -/
def Node.mark : Node → Node
  | .leaf l => .leaf l
  | .object _ => .leaf .objectMark
  | .array _ => .leaf .arrayMark

/-- A tree that may have no end: what stands at the end of each path. A path says by which index
to go on at each container. -/
def Tree : Type := List Nat → Option Node

namespace Tree

/-- What is inside at an index. -/
def child (t : Tree) (i : Nat) : Tree := fun path => t (i :: path)

/-- The tree with marks in place of the containers that are so many levels deep. -/
def prune (levels : Nat) (t : Tree) : Tree := fun path =>
  if path.length < levels then t path
  else if path.length = levels then (t path).map Node.mark
  else none

variable {t : Tree} {levels : Nat}

theorem prune_zero_nil : t.prune 0 [] = (t []).map Node.mark := rfl

theorem prune_succ_nil : t.prune (levels + 1) [] = t [] := rfl

theorem child_prune (i : Nat) : (t.prune (levels + 1)).child i = (t.child i).prune levels := by
  funext path
  simp [child, prune]

theorem prune_zero_cons (i : Nat) (path : List Nat) : t.prune 0 (i :: path) = none := by
  simp [prune]

end Tree

/-! ## Texts of trees -/

/-- How a text is put together: the text of a leaf, and the texts of an object, at a depth, and of
an array from those of what is inside. -/
structure Writing where
  leaf : Leaf → String
  object : (depth : Nat) → List (String × String) → String
  array : List String → String

/-- The text is written out for the tree, which stands inside `depth` containers. -/
inductive Tree.Written (w : Writing) : (depth : Nat) → Tree → String → Prop
  | leaf {depth : Nat} {t : Tree} {l : Leaf} :
      t [] = some (.leaf l) → Written w depth t (w.leaf l)
  | object {depth : Nat} {t : Tree} {keys texts : List String} :
      t [] = some (.object keys) → texts.length = keys.length →
      (∀ i text, texts[i]? = some text → Written w (depth + 1) (t.child i) text) →
      Written w depth t (w.object depth (keys.zip texts))
  | array {depth : Nat} {t : Tree} {texts : List String} :
      t [] = some (.array texts.length) →
      (∀ i text, texts[i]? = some text → Written w (depth + 1) (t.child i) text) →
      Written w depth t (w.array texts)

namespace Tree.Written

variable {w : Writing} {depth : Nat} {t : Tree} {s s' : String}

theorem texts_eq {texts texts' : List String} (hlength : texts'.length = texts.length)
    (h : ∀ (i : Nat) text text', texts[i]? = some text → texts'[i]? = some text' → text = text') :
    texts = texts' := by
  refine List.ext_getElem hlength.symm fun i hi hi' => ?_
  exact h i _ _ (List.getElem?_eq_getElem hi) (List.getElem?_eq_getElem hi')

/-- A tree has one text at most. -/
theorem unique (h : t.Written w depth s) (h' : t.Written w depth s') : s = s' := by
  induction h generalizing s' with
  | leaf hroot =>
    cases h' with
    | leaf hroot' =>
      cases hroot.symm.trans hroot'
      rfl
    | object hroot' _ _ | array hroot' _ => cases hroot.symm.trans hroot'
  | object hroot hlength _ ih =>
    cases h' with
    | object hroot' hlength' hchildren' =>
      cases hroot.symm.trans hroot'
      rw [texts_eq (hlength'.trans hlength.symm) fun i text text' ht ht' =>
        ih i text ht (hchildren' i text' ht')]
    | leaf hroot' | array hroot' _ => cases hroot.symm.trans hroot'
  | array hroot _ ih =>
    cases h' with
    | @array _ _ texts' hroot' hchildren' =>
      have hlength : texts'.length = _ := Node.array.inj (Option.some.inj (hroot'.symm.trans hroot))
      rw [texts_eq hlength fun i text text' ht ht' => ih i text ht (hchildren' i text' ht')]
    | leaf hroot' | object hroot' _ _ => cases hroot.symm.trans hroot'

end Tree.Written

/-! ## Unfoldings -/

namespace Heap

/-- What stands on the heap for a value, apart from what is inside. -/
def node (h : Heap) : Value → Node
  | .null => .leaf .null
  | .number x => .leaf (.number x)
  | .string text => .leaf (.string text)
  | .boolean b => .leaf (.boolean b)
  | .object id => .object (h.object id).keys
  | .array id => .array (h.array id).size
  | .function id => .leaf (.function (h.closure id).name (h.closure id).params)
  | .builtin b => .leaf (.builtin b)

/-- What is inside a value, in order. -/
def parts (h : Heap) : Value → List Value
  | .object id => (h.object id).entries.map Prod.snd
  | .array id => (h.array id).toList
  | _ => []

/-- The value at the end of a path. -/
def along (h : Heap) (v : Value) : List Nat → Option Value
  | [] => some v
  | i :: path => (h.parts v)[i]?.bind fun part => h.along part path

/-- The tree of what is found along all paths from a value. -/
def unfolding (h : Heap) (v : Value) : Tree := fun path => (h.along v path).map h.node

variable {h : Heap} {v part : Value}

theorem unfolding_nil : h.unfolding v [] = some (h.node v) := rfl

theorem child_unfolding {i : Nat} (hi : (h.parts v)[i]? = some part) :
    (h.unfolding v).child i = h.unfolding part := by
  funext path
  simp [Tree.child, unfolding, along, hi]

theorem child_unfolding_eq_none {i : Nat} (hi : (h.parts v)[i]? = none) (path : List Nat) :
    (h.unfolding v).child i path = none := by
  simp [Tree.child, unfolding, along, hi]

end Heap

/-! ## Renderers -/

open Heap (indent)

/-- How printing puts a text together. -/
def Writing.display : Writing where
  leaf
    | .null => "null"
    | .number x => NumberStyle.script.write x
    | .string text => text
    | .boolean b => if b then "true" else "false"
    | .function name _ => "[function " ++ name ++ "]"
    | .builtin _ => "[native function]"
    | .objectMark => "\x7b ... \x7d"
    | .arrayMark => "[ ... ]"
  object depth entries :=
    "\x7b\n" ++
      String.join (entries.map fun (key, text) =>
        indent (depth + 1) ++ key ++ ": " ++ text ++ ",\n") ++
      indent depth ++ "\x7d"
  array texts := "[" ++ ", ".intercalate texts ++ "]"

/-- How an inspection puts a text together. -/
def Writing.inspect : Writing where
  leaf
    | .null => "Null"
    | .number x => "Number(" ++ NumberStyle.message.write x ++ ")"
    | .string text => "String(" ++ Text.quote text ++ ")"
    | .boolean b => if b then "Boolean(true)" else "Boolean(false)"
    | .function name params => "Function(" ++ name ++ "(" ++ ", ".intercalate params ++ "))"
    | .builtin b => "NativeFunction(" ++ b.name ++ ")"
    | .objectMark | .arrayMark => ".."
  object _ entries :=
    "\x7b" ++ ", ".intercalate (entries.map fun (key, text) => Text.quote key ++ ": " ++ text) ++
      "\x7d"
  array texts := "[" ++ ", ".intercalate texts ++ "]"

/-- The renderer, given the levels that may be opened and the depth, puts its texts together in
this manner on the heap. -/
structure Writing.Writes (w : Writing) (h : Heap) (render : (levels depth : Nat) → Value → String) :
    Prop where
  leaf : ∀ levels depth v l, h.node v = .leaf l → render levels depth v = w.leaf l
  mark : ∀ depth v l, (h.node v).mark = .leaf l → render 0 depth v = w.leaf l
  object : ∀ levels depth id, render (levels + 1) depth (.object id) =
    w.object depth ((h.object id).entries.map fun e => (e.1, render levels (depth + 1) e.2))
  array : ∀ levels depth id, render (levels + 1) depth (.array id) =
    w.array ((h.array id).toList.map (render levels (depth + 1)))

namespace Writing

theorem writes_displayAt (h : Heap) : Writing.display.Writes h h.displayAt where
  leaf levels depth v l hl := by
    cases v <;> cases hl <;> cases levels <;> rfl
  mark depth v l hl := by
    cases v <;> cases hl <;> rfl
  object levels depth id := by
    simp only [Heap.displayAt, display, List.map_map, Function.comp_def]
  array levels depth id := by
    simp only [Heap.displayAt, display]

theorem writes_inspectAt (h : Heap) :
    Writing.inspect.Writes h fun levels _ v => h.inspectAt levels v where
  leaf levels depth v l hl := by
    cases v <;> cases hl <;> cases levels <;> rfl
  mark depth v l hl := by
    cases v <;> cases hl <;> rfl
  object levels depth id := by
    simp only [Heap.inspectAt, inspect, List.map_map, Function.comp_def]
  array levels depth id := by
    simp only [Heap.inspectAt, inspect]

variable {w : Writing} {h : Heap} {render : (levels depth : Nat) → Value → String}

/-- What a renderer writes is written out for the unfolding that is cut at its levels. -/
theorem Writes.written (hw : w.Writes h render) (levels depth : Nat) (v : Value) :
    ((h.unfolding v).prune levels).Written w depth (render levels depth v) := by
  induction levels generalizing depth v with
  | zero =>
    obtain ⟨l, hl⟩ : ∃ l, (h.node v).mark = .leaf l := by cases h.node v <;> exact ⟨_, rfl⟩
    rw [hw.mark depth v l hl]
    refine .leaf ?_
    rw [Tree.prune_zero_nil, Heap.unfolding_nil, Option.map_some, hl]
  | succ levels ih =>
    have hroot : (h.unfolding v).prune (levels + 1) [] = some (h.node v) := rfl
    have hparts : ∀ (i : Nat) text,
        ((h.parts v).map (render levels (depth + 1)))[i]? = some text →
        (((h.unfolding v).prune (levels + 1)).child i).Written w (depth + 1) text := by
      intro i text htext
      rw [List.getElem?_map, Option.map_eq_some_iff] at htext
      obtain ⟨part, hpart, rfl⟩ := htext
      rw [Tree.child_prune, Heap.child_unfolding hpart]
      exact ih (depth + 1) part
    cases hv : h.node v with
    | leaf l =>
      rw [hw.leaf _ _ v l hv]
      exact .leaf (hroot.trans (congrArg some hv))
    | object keys =>
      obtain ⟨id, rfl⟩ : ∃ id, v = .object id := by
        cases v <;> cases hv
        exact ⟨_, rfl⟩
      cases hv
      rw [hw.object]
      have htexts : (h.object id).entries.map (fun e => (e.1, render levels (depth + 1) e.2)) =
          (h.object id).keys.zip ((h.parts (.object id)).map (render levels (depth + 1))) := by
        simp [Table.keys, Heap.parts, List.zip_map', Function.comp_def]
      rw [htexts]
      exact .object hroot (by simp [Table.keys, Heap.parts]) hparts
    | array size =>
      obtain ⟨id, rfl⟩ : ∃ id, v = .array id := by
        cases v <;> cases hv
        exact ⟨_, rfl⟩
      cases hv
      rw [hw.array]
      exact .array (hroot.trans (by simp [Heap.node])) hparts

end Writing

/-! ## What is not looked at -/

/-- At the places of the value that are less than so many levels deep, the second heap has the same
containers, and up to that depth it has functions of the same names and parameters. -/
structure Heap.SameAbove (h : Heap) (levels : Nat) (v : Value) (h' : Heap) : Prop where
  object : ∀ path id, h.along v path = some (.object id) → path.length < levels →
    h'.object id = h.object id
  array : ∀ path id, h.along v path = some (.array id) → path.length < levels →
    h'.array id = h.array id
  function : ∀ path id, h.along v path = some (.function id) → path.length ≤ levels →
    (h'.closure id).name = (h.closure id).name ∧ (h'.closure id).params = (h.closure id).params

namespace Heap.SameAbove

variable {h h' : Heap} {levels : Nat} {v part : Value}

theorem mark_eq (hsame : h.SameAbove levels v h') : (h'.node v).mark = (h.node v).mark := by
  cases v with
  | function id =>
    obtain ⟨hname, hparams⟩ := hsame.function [] id rfl (Nat.zero_le _)
    simp only [node, hname, hparams]
  | _ => rfl

theorem node_eq (hsame : h.SameAbove (levels + 1) v h') : h'.node v = h.node v := by
  cases v with
  | function id =>
    obtain ⟨hname, hparams⟩ := hsame.function [] id rfl (Nat.zero_le _)
    simp only [node, hname, hparams]
  | object id =>
    have ho := hsame.object [] id rfl (Nat.succ_pos _)
    simp only [node, ho]
  | array id =>
    have ha := hsame.array [] id rfl (Nat.succ_pos _)
    simp only [node, ha]
  | _ => rfl

theorem parts_eq (hsame : h.SameAbove (levels + 1) v h') : h'.parts v = h.parts v := by
  cases v with
  | object id =>
    have ho := hsame.object [] id rfl (Nat.succ_pos _)
    simp only [parts, ho]
  | array id =>
    have ha := hsame.array [] id rfl (Nat.succ_pos _)
    simp only [parts, ha]
  | _ => rfl

theorem of_part (hsame : h.SameAbove (levels + 1) v h') {i : Nat}
    (hi : (h.parts v)[i]? = some part) : h.SameAbove levels part h' := by
  have halong (path : List Nat) : h.along v (i :: path) = h.along part path := by
    rw [along, hi, Option.bind_some]
  exact
    { object := fun path id hid hlt =>
        hsame.object (i :: path) id ((halong path).trans hid) (Nat.succ_lt_succ hlt)
      array := fun path id hid hlt =>
        hsame.array (i :: path) id ((halong path).trans hid) (Nat.succ_lt_succ hlt)
      function := fun path id hid hle =>
        hsame.function (i :: path) id ((halong path).trans hid) (Nat.succ_le_succ hle) }

/-- A change below the levels changes nothing in the unfolding that is cut there. -/
theorem prune_eq (hsame : h.SameAbove levels v h') :
    (h'.unfolding v).prune levels = (h.unfolding v).prune levels := by
  induction levels generalizing v with
  | zero =>
    funext path
    -- Above the cut the two heaps have the same nodes, and each path goes on in the same part.
    cases path with
    | nil =>
      rw [Tree.prune_zero_nil, Tree.prune_zero_nil, unfolding_nil, unfolding_nil, Option.map_some,
        Option.map_some, hsame.mark_eq]
    | cons i path => rw [Tree.prune_zero_cons, Tree.prune_zero_cons]
  | succ levels ih =>
    funext path
    cases path with
    | nil =>
      rw [Tree.prune_succ_nil, Tree.prune_succ_nil, unfolding_nil, unfolding_nil, hsame.node_eq]
    | cons i path =>
      show ((h'.unfolding v).prune (levels + 1)).child i path =
        ((h.unfolding v).prune (levels + 1)).child i path
      rw [Tree.child_prune, Tree.child_prune]
      cases hi : (h.parts v)[i]? with
      | none =>
        have hi' : (h'.parts v)[i]? = none := hsame.parts_eq ▸ hi
        unfold Tree.prune
        rw [child_unfolding_eq_none hi, child_unfolding_eq_none hi']
      | some part =>
        have hi' : (h'.parts v)[i]? = some part := hsame.parts_eq ▸ hi
        rw [child_unfolding hi, child_unfolding hi', ih (hsame.of_part hi)]

end Heap.SameAbove

namespace Heap

/-! ## Texts of values -/

section

variable {w : Writing} {render : Heap → (levels depth : Nat) → Value → String}

theorem written_iff (hw : ∀ h, w.Writes h (render h)) (h : Heap) (levels depth : Nat) (v : Value)
    (s : String) :
    ((h.unfolding v).prune levels).Written w depth s ↔ s = render h levels depth v := by
  constructor
  · exact fun hs => hs.unique ((hw h).written levels depth v)
  · rintro rfl
    exact (hw h).written levels depth v

/-- Where the unfoldings are cut, only what is left of them counts. -/
theorem render_eq_of_prune_eq (hw : ∀ h, w.Writes h (render h)) {h h' : Heap} {v v' : Value}
    {levels : Nat} (depth : Nat)
    (heq : (h'.unfolding v').prune levels = (h.unfolding v).prune levels) :
    render h' levels depth v' = render h levels depth v := by
  have hwritten := (hw h').written levels depth v'
  rw [heq] at hwritten
  exact (written_iff hw h levels depth v _).1 hwritten

end

/-- Printing and inspection write out the unfolding of a value, cut at ten levels and at thirty-two.
They do not see more of it, and nothing else of the heap. -/
theorem rendering_bounded (h : Heap) (v : Value) :
    ((∀ s, ((h.unfolding v).prune 10).Written .display 0 s ↔ s = h.display v) ∧
      (∀ (h' : Heap) v', (h'.unfolding v').prune 10 = (h.unfolding v).prune 10 →
        h'.display v' = h.display v) ∧
      ∀ h', h.SameAbove 10 v h' → h'.display v = h.display v) ∧
    (∀ s, ((h.unfolding v).prune 32).Written .inspect 0 s ↔ s = h.inspect v) ∧
      (∀ (h' : Heap) v', (h'.unfolding v').prune 32 = (h.unfolding v).prune 32 →
        h'.inspect v' = h.inspect v) ∧
      ∀ h', h.SameAbove 32 v h' → h'.inspect v = h.inspect v := by
  have hdisplay (h' : Heap) (v' : Value)
      (heq : (h'.unfolding v').prune 10 = (h.unfolding v).prune 10) :
      h'.display v' = h.display v :=
    render_eq_of_prune_eq Writing.writes_displayAt 0 heq
  have hinspect (h' : Heap) (v' : Value)
      (heq : (h'.unfolding v').prune 32 = (h.unfolding v).prune 32) :
      h'.inspect v' = h.inspect v :=
    render_eq_of_prune_eq Writing.writes_inspectAt 0 heq
  exact ⟨⟨written_iff Writing.writes_displayAt h 10 0 v, hdisplay,
      fun h' hsame => hdisplay h' v hsame.prune_eq⟩,
    written_iff Writing.writes_inspectAt h 32 0 v, hinspect,
      fun h' hsame => hinspect h' v hsame.prune_eq⟩

/-- An array that holds itself, and one of two arrays that hold each other. -/
theorem rendering_bounded_cyclic :
    let h : Heap := ⟨#[], #[], #[#[.array 0]], #[]⟩
    let h' : Heap := ⟨#[], #[], #[#[.array 1], #[.array 0]], #[]⟩
    (h'.unfolding (.array 1)).prune 10 = (h.unfolding (.array 0)).prune 10 ∧
      h'.display (.array 1) = h.display (.array 0) ∧
      h.display (.array 0) = "[[[[[[[[[[[ ... ]]]]]]]]]]]" := by
  intro h h'
  have hunfolding : ∀ path, h'.unfolding (.array 0) path = h.unfolding (.array 0) path ∧
      h'.unfolding (.array 1) path = h.unfolding (.array 0) path := by
    intro path
    induction path with
    | nil => exact ⟨rfl, rfl⟩
    | cons i path ih =>
      cases i with
      | zero => exact ⟨ih.2, ih.1⟩
      | succ i => exact ⟨rfl, rfl⟩
  have heq : h'.unfolding (.array 1) = h.unfolding (.array 0) :=
    funext fun path => (hunfolding path).2
  have hprune : (h'.unfolding (.array 1)).prune 10 = (h.unfolding (.array 0)).prune 10 := by
    rw [heq]
  exact ⟨hprune, (rendering_bounded h (.array 0)).1.2.1 h' (.array 1) hprune, by decide +kernel⟩

end Heap

end DialectScript
