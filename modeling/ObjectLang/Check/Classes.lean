import ObjectLang.Check.Signature

/-! # Class instances

A class is built in one go once its ancestor is: fields, method signatures, slots, initializer,
conformance and the table of its slots.  A class that is reached while its ancestor is being built
waits for it and is built right after it.
-/

namespace ObjectLang.Check

open Source Syntax Scope Names Diagnostic Checked

section

variable (src : Sources) (request : ClassRequest)

/-! ### Fields -/

def layoutFields (cls : ClassId) (subst : Subst) :
    List FieldInst → List (Syntax.Field Mark) → Checking (List FieldInst)
  | fields, [] => return fields
  | fields, f :: fs => do
    let ty ← resolveType src request subst f.type
    if fields.any (·.name == f.name) then
      report (.alreadyDeclared f.name) f.mark.span
      layoutFields cls subst fields fs
    else
      let field :=
        { name := f.name, ty, index := fields.length, declaredIn := cls, span := f.mark.span }
      layoutFields cls subst (fields ++ [field]) fs

/-- The root of a class and its number in the tree of that root.  Below an ancestor the number is
taken from the root's counter. -/
def takeChainId (cls : ClassId) : Option ClassId → Checking (ClassId × Nat)
  | none => return (cls, 0)
  | some base => do
    let p ← getProgram
    let root := (p.classAt base).root
    let chainId := (p.classAt root).nextChainId
    updateClass root fun c => { c with nextChainId := chainId + 1 }
    return (root, chainId)

def buildLayout (cls : ClassId) (decl : Class Mark) (subst : Subst) (ancestor : Option ClassId) :
    Checking Unit := do
  let (root, chainId) ← takeChainId cls ancestor
  let p ← getProgram
  let (inherited, slotOwners) := match ancestor with
    | some base => ((p.classAt base).fields, (p.classAt base).slotOwners)
    | none => ([], [])
  let fields ← layoutFields src request cls subst inherited decl.fields
  updateClass cls fun c => { c with chainId, root, ancestor, fields, slotOwners }

/-! ### Methods -/

def checkOverrideSignature (base function : FuncId) (span : Span) : Checking Unit := do
  let p ← getProgram
  let b := p.functionAt base
  let f := p.functionAt function
  if b.params.length ≠ f.params.length then
    report (.argumentCount b.params.length f.params.length) span
  else
    let pairs := b.paramTypes.zip f.paramTypes ++ [(b.returnType, f.returnType)]
    pairs.forM fun (expected, found) => do
      if expected ≠ found then
        reportMismatch src expected found span

def joinSlot (cls : ClassId) (function : FuncId) (slot : Nat) (span : Span) : Checking Unit := do
  let c := (← getProgram).classAt cls
  updateFunction function fun f => { f with isOverride := true, slot := some slot }
  match c.slotOwners[slot]? with
  | none => return ()
  | some owner =>
    match ((← getProgram).functionAt owner).registerOverride c.chainId function with
    | .ok f => updateFunction owner fun _ => f
    | .error e => report (.internal e.message) span

def openSlot (cls : ClassId) (function : FuncId) : Checking Unit := do
  let c := (← getProgram).classAt cls
  updateClass cls fun c => { c with
    slotOwners := c.slotOwners ++ [function], virtualMethods := c.virtualMethods ++ [function] }
  updateFunction function fun f => { f with
    isVirtual := true, slot := some c.slotOwners.length
    overrides := f.overrides.insert c.chainId function }

/-- Decides whether a method overrides, opens a slot or is plain. -/
def applyDispatchRules (cls : ClassId) (function : FuncId) (method : Function Mark) :
    Checking Unit := do
  let p ← getProgram
  let span := method.mark.span
  match (p.classAt cls).ancestor.bind fun a => p.findMethod a method.name with
  | some (_, .inst base) =>
    match (p.functionAt base).slot with
    | some slot =>
      if !method.isOverride then
        report (.missingOverride method.name) span
      checkOverrideSignature src base function span
      joinSlot cls function slot span
    | none => report (.overridesNonVirtual method.name) span
  | some (_, .generic _) => report (.overridesNonVirtual method.name) span
  | none =>
    if method.isOverride then
      report (.nothingToOverride method.name) span
    if method.isVirtual then
      openSlot cls function

/-- Enters one declared method into its class.  A method whose name was taken by an earlier one is
not in the tree and is left out; a generic method is instantiated by its calls. -/
def buildMethod (cls : ClassId) (struct : StructureId) (method : Function Mark) :
    Checking Unit := do
  let enter (entry : MethodEntry) : Checking Unit :=
    updateClass cls fun c => { c with methods := c.methods.insert method.name entry }
  match (src.tree.structureAt struct).methods[method.name]? with
  | none => return ()
  | some symbol =>
    if (src.tree.functionAt symbol).decl.mark.node ≠ method.mark.node then
      return ()
    else if method.typeParams.isEmpty then
      let key := { symbol, typeArgs := [], receiver := some (.object cls) }
      match ← requestFunction src request key method.mark.span with
      | none => return ()
      | some function => do
        applyDispatchRules src cls function method
        enter (.inst function)
    else
      enter (.generic symbol)

/-! ### Initializer -/

def synthesizeInit (cls : ClassId) : Checking FuncId := do
  let s ← get
  let c := s.program.classAt cls
  let struct := src.tree.structureAt c.struct
  let id ← pushFunction fun id => {
    symbol := none, name := c.name, linkName := c.display ++ ".init$" ++ toString id, kind := .init
    receiver := some (.object cls), body := some (.empty c.span), returnType := .void
    owner := some cls, span := c.span }
  queueBody {
    function := id
    env := {
      subst := classSubst src s.program cls, ns := struct.ns, file := struct.file, cls := some cls
      selfType := some (.object cls), depth := s.depth } }
  return id

def requestInit (cls : ClassId) : Option SymbolId → Checking (Option FuncId)
  | some symbol =>
    let key := { symbol, typeArgs := [], receiver := some (.object cls) }
    requestFunction src request key (src.tree.functionAt symbol).decl.mark.span
  | none => some <$> synthesizeInit src cls

def buildInit (cls : ClassId) (struct : StructureId) : Checking Unit := do
  let init ← requestInit src request cls (src.tree.structureAt struct).init
  updateClass cls fun c => { c with init }

/-! ### Conformance -/

/-- The requirements of a protocol that the class does not meet.  A method meets a requirement when
it has its name and its number of parameters. -/
def missingRequirements (p : Program) (cls : ClassId) (protocol : Protocol Mark) :
    List (Function Mark) :=
  protocol.methods.filter fun required =>
    (p.findMethod cls required.name).map (fun found => p.methodArity src.tree found.2)
      ≠ some required.params.length

def checkConformance (cls : ClassId) (struct : StructureId) (subst : Subst)
    (clause : TypeExpr Mark) : Checking Unit := do
  let span := clause.mark.span
  match ← resolveType src request subst clause with
  | .unknown => return ()
  | .protocol id =>
    match (src.tree.structureAt id).decl.protocol? with
    | none => return ()
    | some protocol =>
      let p ← getProgram
      let missing := missingRequirements src p cls protocol
      missing.forM fun required =>
        report (.protocolMethodMissing (p.classAt cls).display (src.tree.structurePath id)
          required.name) span
      if missing.isEmpty then
        updateClass cls fun c => { c with protocols := c.protocols ++ [id] }
        addImplementor id struct
  | other => reportFound src "a protocol" other span

/-! ### Building -/

def finishClass (cls : ClassId) : Checking Unit := do
  let p ← getProgram
  let c := p.classAt cls
  updateClass cls fun c => { c with
    vtable := c.slotOwners.map fun base => p.resolveOverride base cls, inProgress := false }
  closeClass { struct := c.struct, typeArgs := c.typeArgs } cls

def buildClass (pending : Pending) (ancestor : Option ClassId) : Checking Unit := do
  let s ← get
  let cls := pending.cls
  let struct := (s.program.classAt cls).struct
  match (src.tree.structureAt struct).decl.cls? with
  | none => return ()
  | some decl =>
    let subst := classSubst src s.program cls
    setDepth pending.depth
    buildLayout src request cls decl subst ancestor
    decl.methods.forM (buildMethod src request cls struct)
    buildInit src request cls struct
    decl.protocols.forM (checkConformance src request cls struct subst)
    finishClass cls
    setDepth s.depth

def takeWaiting (ancestor : ClassId) : Checking (List Pending) := do
  let s ← get
  set { s with waiting := s.waiting.filter (·.ancestor != ancestor) }
  return (s.waiting.filter (·.ancestor == ancestor)).map (·.pending)

/-- Builds a class and then, each with those that wait for it, the classes that wait for it. -/
def completeClass : Nat → Pending → Option ClassId → Checking Unit
  | 0, _, _ => exhausted
  | fuel + 1, pending, ancestor => do
    buildClass src request pending ancestor
    let descendants ← takeWaiting pending.cls
    descendants.forM fun d => completeClass fuel d (some pending.cls)

/-! ### Ancestors -/

inductive Ancestor where
  | ready (ancestor : Option ClassId)
  | waiting (ancestor : ClassId)
  deriving DecidableEq, Repr, Inhabited

def refuseAncestor (ty : Ty) (span : Span) (fault : InheritFault) : Checking Ancestor := do
  report (.cannotInherit (← display src ty) fault) span
  return .ready none

/-- Decides about the type that a class names as its ancestor.  A class whose own ancestor is being
resolved further out closes a cycle; one that is merely being built is waited for. -/
def judgeAncestor (cls : ClassId) (outer : List ClassId) (span : Span) : Ty → Checking Ancestor
  | .unknown => return .ready none
  | .object base => do
    if !((← getProgram).classAt base).inProgress then
      return .ready (some base)
    else if base ≠ cls && !outer.contains base then
      return .waiting base
    else
      refuseAncestor src (.object base) span .cycle
  | ty => refuseAncestor src ty span .notClass

def resolveAncestor (cls : ClassId) (decl : Class Mark) (subst : Subst) : Checking Ancestor := do
  match decl.ancestor with
  | none => return .ready none
  | some clause =>
    let outer := (← get).resolving
    modify fun s => { s with resolving := cls :: outer }
    let ty ← resolveType src request subst clause
    modify fun s => { s with resolving := outer }
    judgeAncestor src cls outer clause.mark.span ty

end

section

variable (src : Sources)

def enterDepth (struct : StructureId) (typeArgs : List Ty) (span : Span) :
    Checking (Option Nat) := do
  let depth := (← get).depth
  if typeArgs.isEmpty then
    return some depth
  else if maxDepth ≤ depth then
    report (.tooDeep (src.tree.structurePath struct) maxDepth) span
    return none
  else
    return some (depth + 1)

def instantiateClass (request : ClassRequest) (fuel : Nat) (struct : StructureId)
    (decl : Class Mark) (typeArgs : List Ty) (span : Span) : Checking (Option ClassId) := do
  let outer := (← get).depth
  match ← enterDepth src struct typeArgs span with
  | none => return none
  | some depth =>
    setDepth depth
    let p ← getProgram
    let cls ← openClass { struct, typeArgs } fun id => {
      root := id, struct, name := decl.name
      display := decl.name ++ p.displayTypeArgs src.tree typeArgs, typeArgs
      span := decl.mark.span }
    let subst := Subst.bind ∅ decl.typeParams typeArgs
    match ← resolveAncestor src request cls decl subst with
    | .ready ancestor => completeClass src request fuel { cls, depth } ancestor
    | .waiting ancestor =>
      modify fun s => { s with waiting := s.waiting ++ [{ ancestor, pending := { cls, depth } }] }
    setDepth outer
    return some cls

/-- The instance of a class at type arguments: the one that is there, finished or not, or a new
one. -/
def requestClass : Nat → ClassRequest
  | 0 => fun _ _ _ => exhausted
  | fuel + 1 => fun struct typeArgs span => do
    if let some id ← findClass { struct, typeArgs } then
      return some id
    match (src.tree.structureAt struct).decl.cls? with
    | none => return none
    | some decl =>
      if typeArgs.length ≠ decl.typeParams.length then
        report (.typeArgumentCount decl.typeParams.length typeArgs.length) span
        return none
      else
        instantiateClass src (requestClass fuel) fuel struct decl typeArgs span

def reportOrphan (w : Waiting) : Checking Unit := do
  let struct := ((← getProgram).classAt w.pending.cls).struct
  match (src.tree.structureAt struct).decl.cls?.bind (·.ancestor) with
  | some clause =>
    report (.cannotInherit (← display src (.object w.ancestor)) .neverCompleted) clause.mark.span
  | none => return ()

/-- Classes that still wait when a request from outside has been served are built as roots. -/
def completeOrphans (request : ClassRequest) : Nat → Checking Unit
  | 0 => exhausted
  | fuel + 1 => do
    let s ← get
    if s.waiting.isEmpty then
      return ()
    else
      set { s with waiting := [] }
      s.waiting.forM fun w => do
        reportOrphan src w
        completeClass src request fuel w.pending none
      completeOrphans request fuel

end

end ObjectLang.Check
