import Mathlib.Logic.Function.Basic
import ObjectLang.Check.Body

/-! # Lexical scopes

What a name in a body stands for can be read off the source: the latest binding that stands before
it in the innermost block that has one, or else the last parameter of that name.  A checked body is
related to the one that was written along these lines.
-/

namespace ObjectLang.Check

open Source Syntax Scope Names Diagnostic Checked

/-- What the names stand for in each of the blocks around a place, innermost block first. -/
abbrev Bindings := List (String → Option LocalId)

namespace Bindings

variable (Γ : Bindings)

def lookup (name : String) : Option LocalId := Γ.findSome? (· name)

/-- A block of its own for the parameters, in which the last one of a name counts. -/
def ofParams (params : List LocalInst) : Bindings :=
  [fun name => (params.zipIdx.reverse.find? (·.1.name == name)).map (·.2)]

def bind (name : String) (id : LocalId) : Bindings :=
  Γ.modifyHead (Function.update · name (some id))

/-- What names stand for after a statement. -/
def next : Syntax.Stmt Mark → Checked.Stmt → Bindings
  | .bind _ name _ _, .bind id _ => Γ.bind name id
  | _, _ => Γ

def after (Γ : Bindings) : List (Syntax.Stmt Mark) → List Checked.Stmt → Bindings
  | s :: ss, s' :: ss' => after (Γ.next s s') ss ss'
  | _, _ => Γ

def boundHere (name : String) : Bool := Γ.head?.any fun names => (names name).isSome

def boundAround (name : String) : Bool := Γ.tail.any fun names => (names name).isSome

end Bindings

/-- The expression speaks of no local. -/
def Leaf : Checked.Expr → Prop
  | .int _ _ | .float _ _ | .bool _ _ | .str _ _ | .self _ | .variant _ _ _ | .error _ => True
  | _ => False

/-- A name that stands for no local is a field of the receiver or was reported. -/
def Outer : Checked.Expr → Prop
  | .field _ (.self _) _ _ | .error _ => True
  | _ => False

/-- The receiver of a call by name, if there is one. -/
def Implicit : Option Checked.Expr → Prop
  | none | some (.self _) => True
  | _ => False

/-- The receiver of a call is such an expression. -/
def ReceivedBy (receiver : Checked.Expr → Prop) : Option Checked.Expr → Prop
  | some e => receiver e
  | none => False

/-- A call with such a receiver and such arguments, unless it was reported. -/
def CallOf (receiver : Option Checked.Expr → Prop) (args : List Checked.Expr → Prop) :
    Checked.Expr → Prop
  | .call _ _ r es _ => receiver r ∧ args es
  | .error _ => True
  | _ => False

mutual

/-- What was written and what was found agree in what the names stand for. -/
def Agrees (Γ : Bindings) : Syntax.Expr Mark → Checked.Expr → Prop
  | .ident _ name, e =>
    match Γ.lookup name with
    | some id => ∃ i, e = .var i id
    | none => Outer e
  | .binary _ _ left right, .binary _ _ left' right' => Agrees Γ left left' ∧ Agrees Γ right right'
  | .unary _ _ operand, .unary _ _ operand' => Agrees Γ operand operand'
  | .call _ _ _ args, e => CallOf Implicit (agreesAll Γ args) e
  | .methodCall _ receiver _ _ args, e =>
    CallOf (ReceivedBy (Agrees Γ receiver)) (agreesAll Γ args) e
  | .field _ object _, .field _ object' _ _ => Agrees Γ object object'
  | .field _ _ _, .error _ => True
  | .new _ _ args, .new _ _ _ args' => agreesAll Γ args args'
  | .new _ _ _, .error _ => True
  | .cond _ condition thenBranch elseBranch, .cond _ condition' thenBranch' elseBranch' =>
    Agrees Γ condition condition' ∧ agreesBlock Γ thenBranch thenBranch' ∧
      agreesElse Γ elseBranch elseBranch'
  | .block _ body, .block _ body' => agreesBlock Γ body body'
  | .int _ _, e | .float _ _, e | .bool _ _, e | .str _ _, e | .self _, e | .variant _ _ _, e =>
    Leaf e
  | _, _ => False

def agreesAll (Γ : Bindings) : List (Syntax.Expr Mark) → List Checked.Expr → Prop
  | [], [] => True
  | e :: es, e' :: es' => Agrees Γ e e' ∧ agreesAll Γ es es'
  | _, _ => False

def agreesOption (Γ : Bindings) : Option (Syntax.Expr Mark) → Option Checked.Expr → Prop
  | none, none => True
  | some e, some e' => Agrees Γ e e'
  | _, _ => False

/-- An assignment that is refused keeps its value only. -/
def agreesStmt (Γ : Bindings) : Syntax.Stmt Mark → Checked.Stmt → Prop
  | .bind _ _ _ init, .bind _ init' => agreesOption Γ init init'
  | .assign _ target value, .setVar id value' =>
    (∃ i, Agrees Γ target (.var i id)) ∧ Agrees Γ value value'
  | .assign _ target value, .setField object cls index value' =>
    (∃ i, Agrees Γ target (.field i object cls index)) ∧ Agrees Γ value value'
  | .assign _ _ value, .expr value' => Agrees Γ value value'
  | .expr _ value, .expr value' => Agrees Γ value value'
  | .ret _ value, .ret value' => agreesOption Γ value value'
  | .loop _ condition body, .loop condition' body' =>
    Agrees Γ condition condition' ∧ agreesBlock Γ body body'
  | _, _ => False

/-- A binding is known to the statements that follow it. -/
def agreesStmts (Γ : Bindings) : List (Syntax.Stmt Mark) → List Checked.Stmt → Prop
  | [], [] => True
  | s :: ss, s' :: ss' => agreesStmt Γ s s' ∧ agreesStmts (Γ.next s s') ss ss'
  | _, _ => False

/-- A block has names of its own. -/
def agreesBlock (Γ : Bindings) : Syntax.Block Mark → Checked.Block → Prop
  | .mk _ stmts tail, .mk stmts' tail' _ _ _ =>
    agreesStmts ((fun _ => none) :: Γ) stmts stmts' ∧
      agreesOption (Bindings.after ((fun _ => none) :: Γ) stmts stmts') tail tail'

def agreesElse (Γ : Bindings) : Option (Syntax.Block Mark) → Option Checked.Block → Prop
  | none, none => True
  | some b, some b' => agreesBlock Γ b b'
  | _, _ => False

end

section

variable {Γ : Bindings} {m : Mark} {name : String} {types : List (TypeExpr Mark)}
  {args : List (Syntax.Expr Mark)}
  {receiver : Syntax.Expr Mark} {callee : List String} {e : Checked.Expr}

theorem agrees_call :
    Agrees Γ (.call m callee types args) e ↔ CallOf Implicit (agreesAll Γ args) e := by
  rw [Agrees]

theorem agrees_methodCall : Agrees Γ (.methodCall m receiver name types args) e ↔
    CallOf (ReceivedBy (Agrees Γ receiver)) (agreesAll Γ args) e := by
  rw [Agrees]

end

/-! ### Frames -/

namespace Frame

def bindings (frame : Frame) : Bindings := frame.blocks.map fun b name => b[name]?

theorem lookup_bindings (frame : Frame) (name : String) :
    frame.bindings.lookup name = frame.lookup name := by
  rw [bindings, Bindings.lookup, List.findSome?_map]
  rfl

theorem bindings_openBlock (frame : Frame) :
    frame.openBlock.bindings = (fun _ => none) :: frame.bindings := by
  simp [bindings, openBlock]

theorem bindings_declare (frame : Frame) (l : LocalInst) :
    (frame.declare l).2.bindings = frame.bindings.bind l.name frame.locals.length := by
  obtain ⟨locals, blocks⟩ := frame
  cases blocks with
  | nil => rfl
  | cons inner outer =>
    simp only [bindings, declare, List.map_cons, Bindings.bind, List.modifyHead_cons,
      List.cons.injEq, and_true]
    funext name
    rw [Std.TreeMap.getElem?_insert, Function.update_apply]
    simp only [Std.LawfulEqOrd.compare_eq_iff_eq, eq_comm (a := name)]

theorem getElem?_foldl_insert (xs : List (LocalInst × Nat)) (name : String) :
    (xs.foldl (fun names (p, k) => names.insert p.name k) (∅ : Std.TreeMap String LocalId))[name]? =
      (xs.reverse.find? (·.1.name == name)).map (·.2) := by
  rw [← xs.reverse_reverse, List.foldl_reverse, xs.reverse.reverse_reverse]
  induction xs.reverse with
  | nil => simp
  | cons x xs ih =>
    rw [List.foldr_cons, Std.TreeMap.getElem?_insert, ih]
    by_cases h : x.1.name = name
    · rw [List.find?_cons_of_pos (by simpa using h)]
      simp [h]
    · rw [List.find?_cons_of_neg (by simpa using h)]
      simp [h]

theorem bindings_ofParams (params : List LocalInst) :
    (ofParams params).bindings = .ofParams params := by
  simp only [bindings, ofParams, List.map_cons, List.map_nil, getElem?_foldl_insert,
    Bindings.ofParams]

theorem clash_eq (frame : Frame) (name : String) : frame.clash name =
    if frame.bindings.boundHere name then .repeats
    else if frame.bindings.boundAround name then .shadows else .none := by
  obtain ⟨locals, blocks⟩ := frame
  cases blocks with
  | nil => rfl
  | cons inner outer =>
    simp only [clash, bindings, Bindings.boundHere, Bindings.boundAround, List.map_cons,
      List.head?_cons,
      Option.any_some, List.tail_cons, List.any_map, Std.TreeMap.contains_eq_isSome_getElem?,
      Function.comp_def]

end Frame

end ObjectLang.Check
