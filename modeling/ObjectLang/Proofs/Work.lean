import ObjectLang.Proofs.Labels

/-! # Work in progress

Classes and signatures are built re-entrantly: a type that is met on the way may lead to other
classes, which are made, built or put on hold before the first one goes on.  The state is in order
relative to a list of the work that has been begun, and whatever is served in between leaves that
work alone.
-/

namespace ObjectLang.Checked

/-- The record of a class is the same but for its counter, which may have moved on. -/
def ClassInst.Kept (c d : ClassInst) : Prop :=
  d = { c with nextChainId := d.nextChainId } ∧ c.nextChainId ≤ d.nextChainId

/-- A function is the instance that it was and has the body that it had. -/
structure FuncInst.Alike (f g : FuncInst) : Prop where
  symbol : g.symbol = f.symbol
  name : g.name = f.name
  kind : g.kind = f.kind
  typeArgs : g.typeArgs = f.typeArgs
  receiver : g.receiver = f.receiver
  owner : g.owner = f.owner
  fieldInits : g.fieldInits = f.fieldInits
  body : g.body = f.body

structure FuncInst.SameSignature (f g : FuncInst) : Prop where
  params : g.params = f.params
  locals : g.locals = f.locals
  returnType : g.returnType = f.returnType
  linkName : g.linkName = f.linkName
  exported : g.exported = f.exported

/-- Nothing of the function has been checked yet. -/
structure FuncInst.Bodiless (f : FuncInst) : Prop where
  fieldInits : f.fieldInits = []
  body : ∀ b, f.body = some b → f.symbol = none ∧ ∃ span, b = .empty span

/-- The type is one of the program. -/
def Ty.Within (p : Program) (ty : Ty) : Prop := ∀ c, ty = .object c → c < p.classes.size

structure ClassInst.Within (p : Program) (c : ClassInst) : Prop where
  typeArgs : ∀ ty ∈ c.typeArgs, ty.Within p
  fields : ∀ field ∈ c.fields, field.ty.Within p
  virtualMethods : ∀ f ∈ c.virtualMethods, f < p.functions.size

structure FuncInst.Within (p : Program) (f : FuncInst) : Prop where
  typeArgs : ∀ ty ∈ f.typeArgs, ty.Within p
  receiver : ∀ ty, f.receiver = some ty → ty.Within p
  params : ∀ param ∈ f.params, param.ty.Within p ∧ param.id < f.locals.length
  locals : ∀ l ∈ f.locals, l.ty.Within p
  returnType : f.returnType.Within p

section

variable {p q : Program} {ty : Ty}

theorem ClassInst.Kept.refl (c : ClassInst) : c.Kept c := ⟨rfl, Nat.le_refl _⟩

theorem ClassInst.Kept.trans {c d e : ClassInst} (h : c.Kept d) (h' : d.Kept e) : c.Kept e := by
  refine ⟨?_, Nat.le_trans h.2 h'.2⟩
  rw [h'.1, h.1]

theorem ClassInst.Blank.kept {c d : ClassInst} {id : ClassId} (h : c.Blank id) (hd : c.Kept d) :
    d.Blank id := by
  rw [hd.1]
  exact ⟨h.root, h.chainId, Nat.lt_of_lt_of_le h.nextChainId hd.2, h.ancestor, h.fields, h.methods,
    h.slotOwners, h.virtualMethods, h.init, h.inProgress⟩

theorem FuncInst.Alike.refl (f : FuncInst) : f.Alike f := ⟨rfl, rfl, rfl, rfl, rfl, rfl, rfl, rfl⟩

theorem FuncInst.Alike.trans {f g h : FuncInst} (a : f.Alike g) (b : g.Alike h) : f.Alike h :=
  ⟨b.symbol.trans a.symbol, b.name.trans a.name, b.kind.trans a.kind, b.typeArgs.trans a.typeArgs,
    b.receiver.trans a.receiver, b.owner.trans a.owner, b.fieldInits.trans a.fieldInits,
    b.body.trans a.body⟩

theorem FuncInst.SameSignature.refl (f : FuncInst) : f.SameSignature f := ⟨rfl, rfl, rfl, rfl, rfl⟩

theorem FuncInst.SameSignature.trans {f g h : FuncInst} (a : f.SameSignature g)
    (b : g.SameSignature h) : f.SameSignature h :=
  ⟨b.params.trans a.params, b.locals.trans a.locals, b.returnType.trans a.returnType,
    b.linkName.trans a.linkName, b.exported.trans a.exported⟩

theorem Ty.Within.mono (h : ty.Within p) (hsize : p.classes.size ≤ q.classes.size) : ty.Within q :=
  fun c hc => Nat.lt_of_lt_of_le (h c hc) hsize

theorem Ty.within_unknown : (Ty.unknown).Within p := fun _ h => by cases h

theorem Ty.within_primitive (k : Syntax.Primitive) : (Ty.primitive k).Within p :=
  fun _ h => by cases h

theorem ClassInst.Within.mono {c : ClassInst} (h : c.Within p)
    (hsize : p.classes.size ≤ q.classes.size) (hfunctions : p.functions.size ≤ q.functions.size) :
    c.Within q :=
  ⟨fun ty hty => (h.typeArgs ty hty).mono hsize, fun f hf => (h.fields f hf).mono hsize,
    fun f hf => Nat.lt_of_lt_of_le (h.virtualMethods f hf) hfunctions⟩

theorem FuncInst.Within.mono {f : FuncInst} (h : f.Within p)
    (hsize : p.classes.size ≤ q.classes.size) : f.Within q :=
  ⟨fun ty hty => (h.typeArgs ty hty).mono hsize, fun ty hty => (h.receiver ty hty).mono hsize,
    fun x hx => (h.params x hx).imp_left (·.mono hsize), fun l hl => (h.locals l hl).mono hsize,
    h.returnType.mono hsize⟩

theorem ClassInst.within_default : (default : ClassInst).Within p := by
  constructor <;> exact fun _ h => by cases h

theorem FuncInst.within_default : (default : FuncInst).Within p := by
  constructor <;> exact fun _ h => by cases h

end

end ObjectLang.Checked

namespace ObjectLang.Check

open Source Syntax Scope Names Diagnostic Checked

/-- What has been begun and not been brought to its end. -/
structure Work where
  /-- Classes that are being built or placed, or are next in line. -/
  active : List ClassId := []
  /-- Numbers that were taken from the counter of a root and that no class bears yet. -/
  reserved : List (ClassId × Nat) := []
  /-- Functions whose signature is being resolved. -/
  signing : List FuncId := []

/-! ### Classes that wait -/

/-- Every class that waits for an ancestor waits for one of `active` or for one that has been
waiting for longer. -/
def Ordered (active : List ClassId) : List Waiting → Prop
  | [] => True
  | x :: xs => x.ancestor ∈ active ∧ Ordered (x.pending.cls :: active) xs

namespace Ordered

variable {active active' : List ClassId} {cls : ClassId} {xs : List Waiting} {x : Waiting}

theorem mono (h : Ordered active xs) (hsub : active ⊆ active') : Ordered active' xs := by
  induction xs generalizing active active' with
  | nil => trivial
  | cons x xs ih =>
    refine ⟨hsub h.1, ih h.2 ?_⟩
    exact List.cons_subset_cons _ hsub

theorem ancestor_mem (h : Ordered active xs) (hx : x ∈ xs) :
    x.ancestor ∈ active ∨ x.ancestor ∈ xs.map (·.pending.cls) := by
  induction xs generalizing active with
  | nil => simp at hx
  | cons y ys ih =>
    rcases List.mem_cons.mp hx with rfl | hx
    · exact .inl h.1
    · rcases ih h.2 hx with h' | h'
      · rcases List.mem_cons.mp h' with h' | h'
        · exact .inr (by simp [h'])
        · exact .inl h'
      · exact .inr (List.mem_cons_of_mem _ h')

theorem append (h : Ordered active xs)
    (hx : x.ancestor ∈ active ∨ x.ancestor ∈ xs.map (·.pending.cls)) :
    Ordered active (xs ++ [x]) := by
  induction xs generalizing active with
  | nil => exact ⟨by simpa using hx, trivial⟩
  | cons y ys ih =>
    refine ⟨h.1, ih h.2 ?_⟩
    simp only [List.map_cons, List.mem_cons] at hx ⊢
    tauto

theorem remove (h : Ordered (cls :: active) xs) (hno : ∀ x ∈ xs, x.ancestor ≠ cls) :
    Ordered active xs := by
  induction xs generalizing active with
  | nil => trivial
  | cons y ys ih =>
    refine ⟨(List.mem_cons.mp h.1).resolve_left (hno y List.mem_cons_self), ih (h.2.mono ?_) ?_⟩
    · intro c hc
      simp only [List.mem_cons] at hc ⊢
      tauto
    · exact fun x hx => hno x (List.mem_cons_of_mem y hx)

theorem take (h : Ordered (cls :: active) xs) :
    Ordered (((xs.filter (·.ancestor == cls)).map (·.pending.cls)) ++ active)
      (xs.filter (·.ancestor != cls)) := by
  induction xs generalizing active with
  | nil => trivial
  | cons y ys ih =>
    have hswap : Ordered (cls :: y.pending.cls :: active) ys := h.2.mono fun c hc => by
      simp only [List.mem_cons] at hc ⊢
      tauto
    have hrest := ih hswap
    by_cases hy : y.ancestor = cls
    · simp only [hy, List.filter_cons, BEq.rfl, if_true, bne_self_eq_false, Bool.false_eq_true,
        if_false, List.map_cons]
      refine hrest.mono fun c hc => ?_
      simp only [List.mem_append, List.mem_cons] at hc ⊢
      tauto
    · have hmem := (List.mem_cons.mp h.1).resolve_left hy
      simp only [List.filter_cons, beq_eq_false_iff_ne.mpr hy, bne_iff_ne.mpr hy, if_true,
        Bool.false_eq_true, if_false]
      refine ⟨List.mem_append_right _ hmem, hrest.mono fun c hc => ?_⟩
      simp only [List.mem_append, List.mem_cons] at hc ⊢
      tauto

theorem eq_nil (h : Ordered [] xs) : xs = [] := by
  cases xs with
  | nil => rfl
  | cons x xs => cases h.1

end Ordered

/-! ### A state in order -/

/-- The class that a function for a key belongs to. -/
def ownerOf (src : Sources) (key : FunctionKey) : Option ClassId :=
  match (src.tree.functionAt key.symbol).owner, key.receiver with
  | .struct _, some (.object c) => some c
  | _, _ => none

/-- The function is the instance for a key. -/
structure Answers (src : Sources) (key : FunctionKey) (f : FuncInst) : Prop where
  symbol : f.symbol = some key.symbol
  name : f.name = (src.tree.functionAt key.symbol).name
  kind : f.kind = (src.tree.functionAt key.symbol).kind
  typeArgs : f.typeArgs = key.typeArgs
  receiver : f.receiver = key.receiver
  owner : f.owner = ownerOf src key

/-- If the function is a free one, it is one of the tree and asked for without a receiver. -/
def Bare (src : Sources) (key : FunctionKey) : Prop :=
  ∀ ns, (src.tree.functionAt key.symbol).owner = .ns ns →
    (src.tree.functionAt key.symbol).kind = .free →
    key.receiver = none ∧ key.symbol < src.tree.functions.size

theorem bare_of_struct {src : Sources} {key : FunctionKey} {s : StructureId}
    (h : (src.tree.functionAt key.symbol).owner = .struct s) : Bare src key := by
  intro ns hns
  cases h.symm.trans hns

/-- The function is declared as a member of a structure, under the name. -/
def MemberNamed (src : Sources) (n : String) (f : SymbolId) : Prop :=
  (src.tree.functionAt f).name = n ∧ ∃ s, (src.tree.functionAt f).owner = .struct s

/-- What is found in the program is what was asked for. -/
structure Catalogue (src : Sources) (p : Program) : Prop where
  declared : ∀ {c}, c < p.classes.size →
    ∃ decl, (src.tree.structureAt (p.classAt c).struct).decl.cls? = some decl
  classKeys : ∀ {key e}, p.classCache.get? key = some e → e.id < p.classes.size ∧
    (p.classAt e.id).struct = key.struct ∧ (p.classAt e.id).typeArgs = key.typeArgs
  functionKeys : ∀ {key e}, p.functionCache.get? key = some e →
    e.id < p.functions.size ∧ Answers src key (p.functionAt e.id)
  owned : ∀ {f c}, (p.functionAt f).owner = some c →
    (p.functionAt f).receiver = some (.object c)
  inits : ∀ {c f}, (p.classAt c).init = some f →
    f < p.functions.size ∧ (p.functionAt f).owner = some c
  generics : ∀ {c f} {n : String}, (p.classAt c).methods[n]? = some (.generic f) →
    MemberNamed src n f

/-- All types of the program are types of the program. -/
structure Typed (p : Program) : Prop where
  classes : ∀ c, (p.classAt c).Within p
  functions : ∀ f, (p.functionAt f).Within p
  /-- A class is made after the classes among its type arguments. -/
  founded : ∀ c d, .object d ∈ (p.classAt c).typeArgs → d < c

/-- What is taken for granted of requests from outside. -/
structure Trust where
  /-- They speak of types of the program only; then so does everything that follows from them. -/
  closed : Prop
  /-- They ask for classes at known types only, and for free functions of the tree without a
  receiver. -/
  known : Prop

instance : CoeSort Trust Prop := ⟨Trust.closed⟩

/-- The classes that are not built are active or wait. -/
structure Agenda (closed : Trust) (w : Work) (s : State) : Prop where
  nodup : (w.active ++ s.waiting.map (·.pending.cls)).Nodup
  lt : ∀ c ∈ w.active, c < s.program.classes.size
  progress : ∀ c, c < s.program.classes.size → (s.program.classAt c).inProgress = true →
    c ∈ w.active ∨ c ∈ s.waiting.map (·.pending.cls)
  blank : ∀ x ∈ s.waiting, x.pending.cls < s.program.classes.size ∧
    (s.program.classAt x.pending.cls).Blank x.pending.cls
  ordered : closed → Ordered w.active s.waiting
  unresolved : closed → ∀ x ∈ s.waiting, x.ancestor ∉ s.resolving

/-- A reserved number stays free until a class takes it. -/
structure Reserve (reserved : List (ClassId × Nat)) (p : Program) : Prop where
  nodup : reserved.Nodup
  built : ∀ x ∈ reserved, p.Built x.1
  lt : ∀ x ∈ reserved, x.2 < (p.classAt x.1).nextChainId
  free : ∀ x ∈ reserved, ∀ c < p.classes.size, (p.classAt c).root = x.1 →
    (p.classAt c).chainId ≠ x.2

/-- A body that waits in the queue is to be checked as its function says. -/
structure TaskFits (closed : Trust) (p : Program) (task : BodyTask) : Prop where
  lt : task.function < p.functions.size
  cls : task.env.cls = (p.functionAt task.function).owner
  selfType : task.env.selfType = selfTypeOf (p.functionAt task.function).kind
    (p.functionAt task.function).owner (p.functionAt task.function).receiver
  subst : closed → ∀ (name : String) ty, task.env.subst[name]? = some ty → ty.Within p

/-- The class has been built or is being worked on further out. -/
def Known (w : Work) (s : State) (c : ClassId) : Prop := s.program.Built c ∨ c ∈ w.active

/-- A function whose signature is being resolved stands in no slot, and its class is known. -/
structure BeingSigned (closed : Trust) (w : Work) (s : State) (f : FuncId) : Prop where
  lt : f < s.program.functions.size
  slot : closed → (s.program.functionAt f).slot = none
  owner : closed → ∀ c, (s.program.functionAt f).owner = some c → Known w s c

/-- No signature that is being resolved is one of the class. -/
def Spares (w : Work) (s : State) (c : ClassId) : Prop :=
  ∀ f ∈ w.signing, (s.program.functionAt f).owner ≠ some c

/-- Nothing keeps a signature from being known: requests ask for known types of the program, every
name means something, and nothing was reported. -/
structure Flawless (src : Sources) (closed : Trust) (s : State) : Prop where
  within : closed
  known : closed.known
  named : src.Named
  clean : s.Clean

/-- The state is in order, apart from the work that has been begun. -/
structure Orderly (src : Sources) (closed : Trust) (w : Work) (s : State) : Prop where
  table : s.program.ClassTable
  exact : s.Clean → s.program.Exact
  catalogue : Catalogue src s.program
  initialized : s.Clean → ∀ c, s.program.Built c → (s.program.classAt c).init ≠ none
  typed : closed → Typed s.program
  agenda : Agenda closed w s
  reserve : Reserve w.reserved s.program
  signing : ∀ f ∈ w.signing, BeingSigned closed w s f
  uniform : Flawless src closed s → Uniform src w.signing s.program
  labels : Labels src closed.known w.signing s.program
  tasks : ∀ task ∈ s.bodies, TaskFits closed s.program task
  proper : ∀ e ∈ s.errors ++ s.withdrawn, ¬e.cause.IsInternal

/-- What may become of a state while some work has been begun: the records of that work and what was
complete stays as it is. -/
structure Advances (w : Work) (s t : State) : Prop where
  classes : s.program.classes.size ≤ t.program.classes.size
  functions : s.program.functions.size ≤ t.program.functions.size
  kept : ∀ {c}, Known w s c → (s.program.classAt c).Kept (t.program.classAt c)
  alike : ∀ {f}, f < s.program.functions.size →
    (s.program.functionAt f).Alike (t.program.functionAt f)
  signed : ∀ {f}, f < s.program.functions.size → f ∉ w.signing →
    (s.program.functionAt f).SameSignature (t.program.functionAt f)
  slots : ∀ {f}, f < s.program.functions.size →
    (∀ c, (s.program.functionAt f).owner = some c → Known w s c) →
    (t.program.functionAt f).slot = (s.program.functionAt f).slot
  fresh : ∀ {f}, s.program.functions.size ≤ f → f < t.program.functions.size →
    (t.program.functionAt f).Bodiless
  resolving : t.resolving = s.resolving
  implementors : ∀ {p x}, x ∈ s.implementorsOf p → x ∈ t.implementorsOf p
  clean : t.Clean → s.Clean

namespace Advances

variable {w w' : Work} {s t u : State} {c : ClassId}

theorem built (h : Advances w s t) (hc : s.program.Built c) : t.program.Built c := by
  refine ⟨Nat.lt_of_lt_of_le hc.1 h.classes, ?_⟩
  rw [(h.kept (.inl hc)).1]
  exact hc.2

theorem known (h : Advances w s t) (hc : Known w s c) : Known w t c := by
  rcases hc with hc | hc
  · exact .inl (h.built hc)
  · exact .inr hc

theorem refl (w : Work) (s : State) : Advances w s s where
  classes := Nat.le_refl _
  functions := Nat.le_refl _
  kept _ := .refl _
  alike _ := .refl _
  signed _ _ := .refl _
  slots _ _ := rfl
  fresh h1 h2 := absurd h2 (Nat.not_lt.mpr h1)
  resolving := rfl
  implementors h := h
  clean h := h

/-- First one thing and then another, which may have been done with more work begun: with more
classes, and with signatures of functions that are new. -/
theorem trans_of (h : Advances w s t) (h' : Advances w' t u) (hactive : w.active ⊆ w'.active)
    (hsigning : ∀ f ∈ w'.signing, f < s.program.functions.size → f ∈ w.signing) :
    Advances w s u where
  classes := Nat.le_trans h.classes h'.classes
  functions := Nat.le_trans h.functions h'.functions
  kept hc := (h.kept hc).trans (h'.kept ((h.known hc).imp_right (hactive ·)))
  alike hf := (h.alike hf).trans (h'.alike (Nat.lt_of_lt_of_le hf h.functions))
  signed {f} hf hw := (h.signed hf hw).trans
    (h'.signed (Nat.lt_of_lt_of_le hf h.functions) fun hmem => hw (hsigning f hmem hf))
  slots {f} hf hc := by
    rw [← h.slots hf hc]
    refine h'.slots (Nat.lt_of_lt_of_le hf h.functions) fun c hc' => ?_
    rw [(h.alike hf).owner] at hc'
    exact (h.known (hc c hc')).imp_right (hactive ·)
  fresh {f} h1 h2 := by
    rcases Nat.lt_or_ge f t.program.functions.size with hf | hf
    · have hbare := h.fresh h1 hf
      have halike := h'.alike hf
      refine ⟨halike.fieldInits.trans hbare.fieldInits, fun b hb => ?_⟩
      rw [halike.symbol]
      exact hbare.body b (halike.body.symm.trans hb)
    · exact h'.fresh hf h2
  resolving := h'.resolving.trans h.resolving
  implementors hx := h'.implementors (h.implementors hx)
  clean hu := h.clean (h'.clean hu)

theorem trans (h : Advances w s t) (h' : Advances w t u) : Advances w s u :=
  h.trans_of h' (fun _ hc => hc) fun _ hf _ => hf

theorem weaken (h : Advances w' s t) (hactive : w.active ⊆ w'.active)
    (hsigning : w'.signing ⊆ w.signing) : Advances w s t :=
  (refl w s).trans_of h hactive fun _ hf _ => hsigning hf

end Advances

/-- What has been built stays as it is, and no declaration ceases to conform to a protocol. -/
structure State.Grows (s t : State) : Prop where
  built : ∀ {c}, s.program.Built c → t.program.Built c
  kept : ∀ {c}, s.program.Built c → (s.program.classAt c).Kept (t.program.classAt c)
  implementors : ∀ {p x}, x ∈ s.implementorsOf p → x ∈ t.implementorsOf p

namespace State.Grows

variable {s t u : State}

theorem refl (s : State) : s.Grows s := ⟨fun h => h, fun _ => .refl _, fun h => h⟩

theorem trans (h : s.Grows t) (h' : t.Grows u) : s.Grows u :=
  ⟨fun hc => h'.built (h.built hc), fun hc => (h.kept hc).trans (h'.kept (h.built hc)),
    fun hx => h'.implementors (h.implementors hx)⟩

theorem of_classes (hclasses : t.program.classes = s.program.classes)
    (himplementors : t.implementors = s.implementors) : s.Grows t := by
  have hat (c : ClassId) : t.program.classAt c = s.program.classAt c := by
    rw [Program.classAt, hclasses, Program.classAt]
  refine ⟨fun h => ?_, fun _ => ?_, fun h => ?_⟩
  · rw [Program.Built, hclasses, hat]
    exact h
  · rw [hat]
    exact .refl _
  · rw [State.implementorsOf, himplementors]
    exact h

end State.Grows

theorem Advances.grows {w : Work} {s t : State} (h : Advances w s t) : s.Grows t :=
  ⟨h.built, fun hc => h.kept (.inl hc), h.implementors⟩

section

variable {src : Sources} {closed : Trust} {w w' : Work} {s t : State} {f : FuncId}

theorem Flawless.of_clean (h : Flawless src closed t) (hclean : t.Clean → s.Clean) :
    Flawless src closed s :=
  ⟨h.within, h.known, h.named, hclean h.clean⟩

theorem Spares.advance {v : Work} {c : ClassId} (h : Spares w s c)
    (hsigning : ∀ f ∈ w.signing, BeingSigned closed v s f) (hst : Advances w' s t) :
    Spares w t c := by
  intro f hf
  rw [(hst.alike (hsigning f hf).lt).owner]
  exact h f hf

namespace BeingSigned

/-- Whatever is done meanwhile does not concern a function whose signature is being resolved. -/
theorem advance (h : BeingSigned closed w s f) (hst : Advances w s t) :
    BeingSigned closed w t f where
  lt := Nat.lt_of_lt_of_le h.lt hst.functions
  slot hc := (hst.slots h.lt (h.owner hc)).trans (h.slot hc)
  owner hc c howner := by
    rw [(hst.alike h.lt).owner] at howner
    exact hst.known (h.owner hc c howner)

theorem of_program (h : BeingSigned closed w s f) (hprogram : t.program = s.program) :
    BeingSigned closed w t f := by
  refine ⟨hprogram ▸ h.lt, ?_, ?_⟩ <;> simp only [Known, hprogram]
  · exact h.slot
  · exact h.owner

theorem imp (h : BeingSigned closed w s f)
    (hknown : closed → ∀ c, (s.program.functionAt f).owner = some c → Known w s c → Known w' s c) :
    BeingSigned closed w' s f :=
  ⟨h.lt, h.slot, fun hc c howner => hknown hc c howner (h.owner hc c howner)⟩

theorem mono (h : BeingSigned closed w s f) (hactive : w.active ⊆ w'.active) :
    BeingSigned closed w' s f :=
  h.imp fun _ _ _ hknown => hknown.imp_right (hactive ·)

end BeingSigned

/-- Only counters of classes have moved on. -/
theorem Uniform.kept {p q : Program} {signing : List FuncId} (h : Uniform src signing p)
    (hsize : q.classes.size = p.classes.size) (hclass : ∀ c, (p.classAt c).Kept (q.classAt c))
    (hfunctions : q.functions = p.functions) : Uniform src signing q := by
  have hat (f : FuncId) : q.functionAt f = p.functionAt f := by
    rw [Program.functionAt, hfunctions, Program.functionAt]
  refine ⟨fun {c} hc => ?_, fun {f c m} hf hm => ?_, fun c => ?_⟩
  · rw [(hclass c).1]
    have happlied := h.applied (hsize ▸ hc)
    exact ⟨happlied.length, happlied.known⟩
  · rw [hat] at hm ⊢
    refine h.methods hf ⟨hm.symbol, hm.owner, ?_, hm.typeArgs⟩
    have hdeclared := hm.declared
    rw [(hclass c).1] at hdeclared
    exact hdeclared
  · exact (h.slots c).congr (.of_eq hfunctions) (by rw [(hclass c).1])

end

end ObjectLang.Check
